import IncrementalBuild.Proofs.Session.Holders
import IncrementalBuild.Proofs.Session.Repeats

/-!
# Unchanged content

A session that is shown the content it has just been shown leaves its tables as they are, unless
the cycle before ended with an error. The exported functions of the text that have the name of an
earlier one are declared and resolved anew: their names are taken, so there is nothing live that
they could be compared with. Their code is generated once more; nothing else is.
-/

set_option autoImplicit false

namespace IncrementalBuild

namespace Workshop

variable {w w' : Workshop} {root text : String} {made : List Decl} {u : Session}

/-- The exported functions that a session declares every time it reads its root file: those of a
source text without syntax errors that have the name of an earlier function. -/
def repeatsIn (files : FileTree) (limit : Nat) (root : String) : List FunctionItem :=
  match readSource files limit root with
  | .ok (.ok text) =>
    if (parse text).error.isSome then [] else repeatedExports [] (functionsOf (parse text).items)
  | _ => []

/-! ## The cycle before -/

/-- A cycle that does not end with an error has rebuilt its file. -/
theorem rebuild_done (h : ∀ e, (w.runCycle [root]).2.outcome ≠ .error e) :
    (w.rebuild root).outcome = .done := by
  rw [← error?_eq_none]
  cases herror : (w.rebuild root).outcome.error? groupName with
  | none => rfl
  | some e =>
    have hevent := runCycle_of_error herror
    exact absurd (congrArg (·.outcome) hevent) (h e)

/-- A cycle has taken a text over: nothing blocked it, the exported declarations that it made were
resolved, and the table shows the text. -/
structure HasTaken (w : Workshop) (root text : String) (changes : List Change) : Prop where
  unblocked : ChangePlan.Unblocked w.session.settings ((parse text).file root text)
    w.session.table.decls (parse text).items changes
  resolved : resolvedIn (w.cycleHistory root) = exported (Change.made (w.namesAfter text)
    ((parse text).file root text) w.session.nextDecl changes)
  shows : (w.runCycle [root]).1.session.table.Shows text

theorem exists_hasTaken (hsound : w.session.table.Sound)
    (hlive : w.session.isCancelled = false)
    (hread : readSource w.files w.session.settings.maxSourceSize root = .ok (.ok text))
    (hvalid : (parse text).error = none)
    (hend : ∀ e, (w.runCycle [root]).2.outcome ≠ .error e) :
    ∃ changes, HasTaken w root text changes := by
  have hrebuilt := rebuilt_taken hlive hread hvalid
  have hdone := rebuild_done hend
  rw [rebuild_eq_takeOver hlive hread hvalid, takeOver_outcome] at hdone
  refine ⟨_, ChangePlan.unblocked_of_blocker hdone, resolvedIn_cycleHistory hrebuilt, ?_⟩
  unfold runCycle
  dsimp only
  rw [finish_table, compile_table]
  exact rebuild_shows hsound hlive hread hvalid hdone

/-- A table that shows a text is what the items of the text leave live. -/
theorem left_of_shows {t : DeclTable} (h : t.Shows text) {path : String} :
    ChangePlan.Left ((parse text).file path text) [] t.decls (parse text).items := by
  refine ⟨h.nodup, fun _ _ => List.not_mem_nil, h.first, fun f hf symbol hname _ => ?_⟩
  rw [h.names]
  exact ⟨f, hf, hname⟩

/-! ## The cycle after -/

/-- A cycle that makes nothing but what was there before leaves the tables as they are. -/
theorem Cycled.idle (h : Cycled w made u w')
    (hlate : w.session.exports.Before w.session.exports.reserved)
    (hlive : ∀ d ∈ made, d.symbol ∈ w.session.table.decls.map (·.symbol))
    (hused : ∀ d ∈ exported made, d.symbol ∈ w.session.exports.inUse)
    (hlinked : ∀ d ∈ exported made, (d.finding w.session.analyzer).calls ≠ [] →
      d.symbol ∈ w.session.linkSet.functions.map (·.symbol)) :
    w'.session.table = w.session.table ∧
      w'.session.exports.entries = w.session.exports.entries ∧
      w'.session.linkSet = w.session.linkSet := by
  refine ⟨?_, (h.claimed hlate).same hused, ?_⟩
  · rw [h.table]
    exact DeclTable.foldl_enter_eq hlive
  · rw [h.linkSet]
    apply LinkSet.foldl_insert_eq
    intro f hf
    obtain ⟨d, hd, hvalue⟩ := List.mem_filterMap.1 hf
    rw [h.named d hd f hvalue]
    apply hlinked d hd
    rw [← h.found d hd, hvalue]
    rfl

/-- What a cycle makes of content that the cycle before has seen: the repeated exports of the
text, each of which the cycle before has made as well. -/
structure Repeating (w₁ w : Workshop) (root : String) (made : List Decl) : Prop where
  cycled : ∃ u, Cycled w made u (w.runCycle [root]).1
  items : (exported made).map (·.item) =
    repeatsIn w.files w.session.settings.maxSourceSize root
  live : ∀ d ∈ made, d.symbol ∈ w.session.table.decls.map (·.symbol)
  before : ∀ d ∈ exported made, ∃ d' ∈ resolvedIn (w₁.cycleHistory root),
    d.content = d'.content

/-- A cycle that takes no text over makes nothing. -/
theorem repeating_of_rebuilt {w₁ : Workshop} {names : Interner} {file : SourceFile}
    {problems : List Diagnostic} (hs : w.session.Settled)
    (h : Rebuilt w.session names file [] problems (w.rebuild root))
    (hnone : repeatsIn w.files w.session.settings.maxSourceSize root = []) :
    Repeating w₁ w root [] := by
  refine ⟨⟨_, cycled_of_rebuilt hs h⟩, hnone.symm, ?_, ?_⟩
  · exact fun d hd => absurd hd List.not_mem_nil
  · exact fun d hd => absurd hd List.not_mem_nil

section Again

variable {w₁ : Workshop} (hs : w.session.Settled) (hlive : w.session.isCancelled = false)
  (hsound₁ : w₁.session.table.Sound) (hlive₁ : w₁.session.isCancelled = false)
  (hsettings : w.session.settings = w₁.session.settings)
  (hread : readSource w.files w.session.settings.maxSourceSize root =
    readSource w₁.files w₁.session.settings.maxSourceSize root)
  (htable : w.session.table = (w₁.runCycle [root]).1.session.table)
  (hend : ∀ e, (w₁.runCycle [root]).2.outcome ≠ .error e)

include hs hlive hsound₁ hlive₁ hsettings hread htable hend

/-- A text that the cycle before has taken over is taken over again. -/
theorem repeating_of_text
    (hread₁ : readSource w₁.files w₁.session.settings.maxSourceSize root = .ok (.ok text))
    (hvalid : (parse text).error = none) : ∃ made, Repeating w₁ w root made := by
  obtain ⟨changes, htaken⟩ := exists_hasTaken hsound₁ hlive₁ hread₁ hvalid hend
  have hread₂ := hread.trans hread₁
  have hshows := htaken.shows
  rw [← htable] at hshows
  have hplan : planFor w ((parse text).file root text) =
      { changes := ChangePlan.again [] (parse text).items } := by
    rw [planFor, hsettings]
    exact (htaken.unblocked.again (left_of_shows hshows)).ofItems_eq
  have hrebuilt := rebuilt_taken hlive hread₂ hvalid
  rw [hplan] at hrebuilt
  refine ⟨_, ⟨_, cycled_of_rebuilt hs hrebuilt⟩, ?_, fun d hd => ?_, fun d hd => ?_⟩
  · rw [Change.map_item_again, repeatsIn, hread₂]
    dsimp only
    rw [hvalid]
    rfl
  · -- what is added has the name of a function of the text, and the table shows the text
    obtain ⟨-, hadded⟩ := Change.mem_made hd
    have hsub : (ChangePlan.again [] (parse text).items).Sublist changes :=
      htaken.unblocked.again_sublist fun _ _ => List.not_mem_nil
    have hplan₁ := htaken.unblocked.ofItems_eq
    have hmem := hsub.subset hadded
    have hchanges : changes = (ChangePlan.ofItems w₁.session.settings
        ((parse text).file root text) w₁.session.table.decls (parse text).items).changes := by
      rw [hplan₁]
    rw [hchanges] at hmem
    obtain ⟨hname, hitem⟩ := ChangePlan.added_of_mem hmem
    rw [hshows.names]
    exact ⟨d.item, hitem, hname⟩
  · obtain ⟨hd, hexport⟩ := mem_exported.1 hd
    obtain ⟨hfile, hadded⟩ := Change.mem_made hd
    have hsub : (ChangePlan.again [] (parse text).items).Sublist changes :=
      htaken.unblocked.again_sublist fun _ _ => List.not_mem_nil
    obtain ⟨d', hd', hcontent⟩ := Change.exists_made (w₁.namesAfter text)
      ((parse text).file root text) w₁.session.nextDecl (hsub.subset hadded)
    refine ⟨d', ?_, ?_⟩
    · rw [htaken.resolved, mem_exported]
      refine ⟨hd', ?_⟩
      simp only [Decl.content, Prod.mk.injEq] at hcontent
      rw [Decl.isExport, hcontent.2.1]
      exact hexport
    · rw [hcontent, Decl.content, hfile]

/-- Content that the cycle before has seen makes its repeated exports again, and nothing else. -/
theorem exists_repeating : ∃ made, Repeating w₁ w root made := by
  cases hfile : readSource w.files w.session.settings.maxSourceSize root with
  | error e =>
    -- the cycle before could not read the file either, which is an error
    have hdone := rebuild_done hend
    rw [rebuild_eq_failed hlive₁ (hread.symm.trans hfile)] at hdone
    cases hdone
  | ok source =>
    cases source with
    | error problem =>
      have hrebuilt := rebuilt_refused hlive ((parse "").file root "") hfile
      refine ⟨[], repeating_of_rebuilt hs hrebuilt ?_⟩
      rw [repeatsIn, hfile]
    | ok text =>
      cases hvalid : (parse text).error with
      | none =>
        exact repeating_of_text hs hlive hsound₁ hlive₁ hsettings hread htable hend
          (hread.symm.trans hfile) hvalid
      | some e =>
        refine ⟨[], repeating_of_rebuilt hs (rebuilt_invalid hlive hfile hvalid) ?_⟩
        rw [repeatsIn, hfile]
        dsimp only
        rw [hvalid]
        rfl

end Again

/-! ## A session -/

/-- What a cycle has resolved, and found to be a function, is linked under its symbol, or another
one is. -/
theorem Standing.symbol_linked {history : List (TaskRun Workshop BuildTask)} {s : Session}
    (h : Standing history s) {f : FunctionValue} (hf : f ∈ linkedIn history) :
    f.symbol ∈ s.linkSet.functions.map (·.symbol) := by
  by_contra hfree
  rw [← LinkSet.find?_eq_none, h.links, List.find?_eq_none] at hfree
  exact absurd (beq_self_eq_true _) (hfree f hf)

theorem Standing.symbol_used {history : List (TaskRun Workshop BuildTask)} {s : Session}
    (h : Standing history s) {d : Decl} (hd : d ∈ resolvedIn history) :
    d.symbol ∈ s.exports.inUse := by
  by_contra hfree
  rw [← ExportTable.find?_eq_none, h.holds, List.find?_eq_none] at hfree
  exact absurd (beq_self_eq_true _) (hfree d hd)

/-- A function that a cycle finds is linked in that cycle. -/
theorem exists_linkedIn (hs : w.session.Settled) {d : Decl}
    (hd : d ∈ resolvedIn (w.cycleHistory root))
    (hcalls : (d.finding w.session.analyzer).calls ≠ []) :
    ∃ f ∈ linkedIn (w.cycleHistory root), f.symbol = d.symbol := by
  obtain ⟨names, file, changes, problems, hrebuilt, -⟩ := exists_rebuilt hs.nodup root
  have hcycled := cycled_of_rebuilt hs hrebuilt
  rw [resolvedIn_cycleHistory hrebuilt] at hd
  rw [← hcycled.found d hd, Option.isSome_iff_exists] at hcalls
  obtain ⟨f, hf⟩ := hcalls
  refine ⟨f, ?_, hcycled.named d hd f hf⟩
  rw [(delivered_of_rebuilt hs hrebuilt).linked]
  exact List.mem_filterMap.2 ⟨d, hd, hf⟩

theorem readSource_congr {files files' : FileTree} {bytes : ByteArray} {isExecutable
    isExecutable' : Bool} (hfile : files.find root = .ok (.file bytes isExecutable))
    (hfile' : files'.find root = .ok (.file bytes isExecutable')) (limit : Nat) :
    readSource files' limit root = readSource files limit root := by
  unfold readSource
  rw [hfile, hfile']

/-- A session has been shown any contents of its files, and then twice content in which the root
file has the same bytes. If the first of the two cycles does not end with an error, the second
leaves the table, the symbols in use and the functions to link as they are, and requests no code
but that of the functions which are declared anew: the exported ones that have the name of an
earlier function of the text. -/
theorem unchanged_content_only_repeats {t : Toolchain} {setup : SessionSetup}
    (hroot : setup.settings.root = some root)
    (hcreate : t.createSession setup = (.ok w.session, w.toolchain)) (contents : List FileTree)
    {files files' : FileTree} {bytes : ByteArray} {isExecutable isExecutable' : Bool}
    (hfile : files.find root = .ok (.file bytes isExecutable))
    (hfile' : files'.find root = .ok (.file bytes isExecutable')) :
    ∃ w₁ event₁ w₂ event₂, (w.reviseAll root contents).revise root files = (w₁, some event₁) ∧
      w₁.revise root files' = (w₂, some event₂) ∧
      ((∀ e, event₁.outcome ≠ .error e) →
        w₂.session.table = w₁.session.table ∧
        w₂.session.exports.entries = w₁.session.exports.entries ∧
        w₂.session.linkSet = w₁.session.linkSet ∧
        ∃ again : List Decl,
          again.map (·.item) = repeatsIn files' setup.settings.maxSourceSize root ∧
          w₂.toolchain.calls = w₁.toolchain.calls ++
            again.flatMap fun d => (d.finding setup.analyzer).calls) := by
  have hawaits := reviseAll_awaits (createSession_awaits hcreate) hroot contents
  have hstanding := standing_reviseAll hroot hcreate contents
  have hstanding₁ := hstanding.revise hawaits hroot files
  obtain ⟨hs₁, hsound₁, hlive₁, hsettings₁, hanalyzer₁, hfiles₁, hrun₁, hawaits₁⟩ :=
    begun_of_awaits hawaits hroot files
  have hbegun₁ := begun_products (w.reviseAll root contents) root files
  rw [hrun₁] at hstanding₁
  dsimp only at hstanding₁
  generalize (w.reviseAll root contents).begun root files = v₁ at *
  obtain ⟨hs₂, -, hlive₂, hsettings₂, hanalyzer₂, hfiles₂, hrun₂, -⟩ :=
    begun_of_awaits hawaits₁ hroot files'
  have hbegun₂ := begun_products (v₁.runCycle [root]).1 root files'
  have hcalls₂ := begun_calls (v₁.runCycle [root]).1 root files'
  generalize (v₁.runCycle [root]).1.begun root files' = v₂ at *
  refine ⟨_, _, _, _, hrun₁, hrun₂, fun hend => ?_⟩
  have hread : readSource v₂.files v₂.session.settings.maxSourceSize root =
      readSource v₁.files v₁.session.settings.maxSourceSize root := by
    rw [hfiles₁, hfiles₂, hsettings₁, hsettings₂]
    exact readSource_congr hfile hfile' _
  have htable₂ : v₂.session.table = (v₁.runCycle [root]).1.session.table :=
    congrArg (fun s => s.table) hbegun₂
  obtain ⟨made, ⟨u, hcycled⟩, hitems, hlive, hbefore⟩ := exists_repeating hs₂ hlive₂ hsound₁ hlive₁
    (hsettings₂.trans hsettings₁.symm) hread htable₂ hend
  have hstanding₂ := hstanding₁.congr hbegun₂.symm
  have hidle := hcycled.idle hstanding₂.late hlive ?_ ?_
  · obtain ⟨htable, hentries, hlinkSet⟩ := hidle
    refine ⟨htable.trans htable₂, ?_, ?_, exported made, ?_, ?_⟩
    · exact hentries.trans (congrArg (fun s => s.exports.entries) hbegun₂)
    · exact hlinkSet.trans (congrArg (fun s => s.linkSet) hbegun₂)
    · rw [hitems, hfiles₂, hsettings₂]
    · rw [hcycled.calls, hcalls₂, hanalyzer₂]
  · intro d hd
    obtain ⟨d', hd', hcontent⟩ := hbefore d hd
    have hsymbol : d.symbol = d'.symbol := congrArg Prod.fst hcontent
    rw [hsymbol]
    apply hstanding₂.symbol_used
    rw [resolvedIn_append]
    exact List.mem_append_right _ hd'
  · intro d hd hcalls
    obtain ⟨d', hd', hcontent⟩ := hbefore d hd
    have hsymbol : d.symbol = d'.symbol := congrArg Prod.fst hcontent
    rw [Decl.calls_of_content hcontent, hanalyzer₂, ← hanalyzer₁] at hcalls
    obtain ⟨f, hf, hname⟩ := exists_linkedIn hs₁ hd' hcalls
    rw [hsymbol, ← hname]
    apply hstanding₂.symbol_linked
    rw [linkedIn_append]
    exact List.mem_append_right _ hf

theorem repeatedText_only_repeats :
    ∃ w₁ event₁ w₂ event₂,
      (sessionA repeatedText).revise "a" (fileA repeatedText) = (w₁, some event₁) ∧
      w₁.revise "a" (fileA repeatedText) = (w₂, some event₂) ∧
      ((∀ e, event₁.outcome ≠ .error e) → w₂.session.table = w₁.session.table) := by
  obtain ⟨w₁, event₁, w₂, event₂, hrun₁, hrun₂, hsame⟩ := unchanged_content_only_repeats rfl
    (createSession_sessionA repeatedText) [] (find_fileA repeatedText) (find_fileA repeatedText)
  exact ⟨w₁, event₁, w₂, event₂, hrun₁, hrun₂, fun hend => (hsame hend).1⟩

/-- The second function of the text is added again when the text is seen again, and is found to
be a function. -/
theorem repeatedText_adds_again : ∃ d : Decl,
    .add d.symbol d.item ∈ (nextPlan repeatedText repeatedText).changes ∧
      d.file = (parse repeatedText).file "a" repeatedText ∧ d.isExport = true ∧
      (d.finding Analyzer.signature).calls ≠ [] := by
  have hany : ((Change.made .empty ((parse repeatedText).file "a" repeatedText) 0
      (nextPlan repeatedText repeatedText).changes).any fun d =>
        d.isExport && !(d.finding Analyzer.signature).calls.isEmpty) = true := by decide +kernel
  obtain ⟨d, hd, hfound⟩ := List.any_eq_true.1 hany
  rw [Bool.and_eq_true, Bool.not_eq_true', List.isEmpty_eq_false_iff] at hfound
  obtain ⟨hfile, hadded⟩ := Change.mem_made hd
  exact ⟨d, hadded, hfile, hfound⟩

/-- The second of two functions with one name is refused in each of two cycles over their text,
neither of which ends with an error. Its code is generated in both. -/
theorem repeated_exports_are_generated_again :
    ∃ w₁ event₁ w₂ event₂,
      (sessionA repeatedText).revise "a" (fileA repeatedText) = (w₁, some event₁) ∧
      w₁.revise "a" (fileA repeatedText) = (w₂, some event₂) ∧
      (∀ e, event₁.outcome ≠ .error e) ∧ w₂.toolchain.calls ≠ w₁.toolchain.calls := by
  have hsize : (bytesOf repeatedText).length ≤ 4294967295 := by decide +kernel
  have hvalid : (parse repeatedText).error = none := by decide +kernel
  have hsecond := (revise_sessionA repeatedText repeatedText).trans (react_revisedA _ _)
  refine ⟨_, _, _, _, start_sessionA repeatedText, hsecond, ?_, ?_⟩
  · have hmild : (firstOutcome { root := some "a" } "a" repeatedText).problems.isEmpty = false := by
      decide +kernel
    intro e herror
    rw [outcome_firstA hsize] at herror
    rw [herror] at hmild
    cases hmild
  · let v := (revisedA repeatedText repeatedText).resumed
    have hread : readSource v.files v.session.settings.maxSourceSize "a" =
        .ok (.ok repeatedText) := readSource_resumedA hsize
    have hanalyzer : v.session.analyzer = Analyzer.signature := by
      change (sessionA repeatedText).start.1.session.analyzer = _
      rw [start_sessionA]
      exact runCycle_analyzer ((sessionA repeatedText).opened "a") ["a"]
    have hbefore : v.toolchain.calls =
        (((sessionA repeatedText).opened "a").runCycle ["a"]).1.toolchain.calls := by
      change (sessionA repeatedText).start.1.toolchain.calls = _
      rw [start_sessionA]
    have hrebuilt := rebuilt_taken rfl hread hvalid
    rw [planFor_resumedA hsize hvalid] at hrebuilt
    have hcalls := (cycled_of_rebuilt (settled_resumedA repeatedText repeatedText) hrebuilt).calls
    obtain ⟨added, hadded, hfile, hexport, hfound⟩ := repeatedText_adds_again
    obtain ⟨d, hd, hcontent⟩ := Change.exists_made (v.namesAfter repeatedText)
      ((parse repeatedText).file "a" repeatedText) v.session.nextDecl hadded
    rw [← hfile] at hcontent
    have hd' : d.isExport = true := by
      simp only [Decl.content, Prod.mk.injEq] at hcontent
      rw [Decl.isExport, hcontent.2.1]
      exact hexport
    intro hsame
    rw [hcalls, hbefore] at hsame
    have hnone := List.append_right_eq_self.1 hsame
    rw [List.flatMap_eq_nil_iff] at hnone
    have hfound' := (Decl.calls_of_content hcontent v.session.analyzer).2 (hanalyzer ▸ hfound)
    exact hfound' (hnone d (mem_exported.2 ⟨hd, hd'⟩))

end Workshop

end IncrementalBuild
