import IncrementalBuild.Proofs.Syntax.Nesting
import IncrementalBuild.Proofs.Types.Canonical
import IncrementalBuild.Proofs.Types.Reading
import IncrementalBuild.Proofs.Types.Spelling

/-!
# Every bad name is reported

Reading a written type looks at each name in it, however deep in the type and whatever was
wrong with the names before. What it reports is one problem for each name that denotes no
type, in the order of the source; only if there is none does it find a type, and that is the
type as it is written.
-/

set_option autoImplicit false

namespace IncrementalBuild

open Grammar

/-! ## Names in types -/

/-- A name in a written type and where it stands. -/
structure Mention where
  name : String
  span : Span

/-- The names in a written type, from left to right. -/
def TypeExpr.mentions : TypeExpr → List Mention
  | .named name span => [{ name, span }]
  | .pointer _ _ _ pointee _ => pointee.mentions
  | .array _ element _ => element.mentions
  | .function params result _ => params.flatMap mentions ++ result.mentions

/-- The names in a signature, those of the parameters first. -/
def FunctionItem.mentions (f : FunctionItem) : List Mention :=
  f.params.flatMap (·.type.mentions) ++ f.result.mentions

/-- The problem of a name that denotes no type. -/
def Mention.problem? (file : SourceFile) (m : Mention) : Option Diagnostic :=
  match NamedType.ofName? m.name with
  | .ok (some _) => none
  | .ok none => some (TypeReading.unknownProblem file m.name m.span)
  | .error e => some (TypeReading.widthProblem file m.name m.span e)

/-- The type that a written type is, layer by layer. -/
inductive TypeExpr.Means : TypeExpr → Ty → Prop where
  | named {name : String} {span : Span} {type : NamedType} :
      NamedType.ofName? name = .ok (some type) → Means (.named name span) type.toTy
  | pointer {isConst isVolatile isMany : Bool} {pointee : TypeExpr} {span : Span} {type : Ty} :
      Means pointee type → Means (.pointer isConst isVolatile isMany pointee span)
        (.pointer type { isConst, isVolatile, isMany, allowZero := false })
  | array {length : Nat} {element : TypeExpr} {span : Span} {type : Ty} :
      Means element type → Means (.array length element span) (.array type length)
  | function {params : List TypeExpr} {result : TypeExpr} {span : Span} {types : List Ty}
      {type : Ty} : List.Forall₂ Means params types → Means result type →
      Means (.function params result span) (.function types type .unspecified)

/-! ## One problem for each bad name -/

mutual

theorem TypeExpr.problems_eq_filterMap (file : SourceFile) :
    ∀ e : TypeExpr, e.problems file = e.mentions.filterMap (Mention.problem? file)
  | .named name span => by
    rw [problems, mentions, List.filterMap_cons, Mention.problem?]
    rcases NamedType.ofName? name with e | _ | t <;> rfl
  | .pointer isConst isVolatile isMany pointee span => by
    rw [problems, mentions, pointee.problems_eq_filterMap file]
  | .array length element span => by
    rw [problems, mentions, element.problems_eq_filterMap file]
  | .function params result span => by
    rw [problems, mentions, List.filterMap_append, result.problems_eq_filterMap file,
      TypeExpr.allProblems_eq_filterMap file params]

theorem TypeExpr.allProblems_eq_filterMap (file : SourceFile) :
    ∀ es : List TypeExpr, TypeExpr.allProblems file es =
      (es.flatMap mentions).filterMap (Mention.problem? file)
  | [] => by rw [allProblems, List.flatMap_nil, List.filterMap_nil]
  | e :: es => by
    rw [allProblems, List.flatMap_cons, List.filterMap_append, e.problems_eq_filterMap file,
      TypeExpr.allProblems_eq_filterMap file es]

end

theorem FunctionItem.problems_eq_filterMap (file : SourceFile) (f : FunctionItem) :
    f.problems file = f.mentions.filterMap (Mention.problem? file) := by
  rw [problems, mentions, List.filterMap_append, TypeExpr.allProblems_eq_filterMap,
    TypeExpr.problems_eq_filterMap, List.flatMap_map]

/-! ## Meanings -/

mutual

/-- What a written type is said to mean, it is. -/
theorem TypeExpr.means_of_meaning? :
    ∀ {e : TypeExpr} {type : Ty}, e.meaning? = some type → e.Means type
  | .named name span, type, h => by
    rw [meaning?] at h
    rcases hname : NamedType.ofName? name with e | _ | t
    · rw [hname] at h
      cases h
    · rw [hname] at h
      cases h
    · rw [hname] at h
      obtain rfl := Option.some.inj h
      exact .named hname
  | .pointer isConst isVolatile isMany pointee span, type, h => by
    rw [meaning?] at h
    obtain ⟨inner, hinner, rfl⟩ := Option.map_eq_some_iff.1 h
    exact .pointer (TypeExpr.means_of_meaning? hinner)
  | .array length element span, type, h => by
    rw [meaning?] at h
    obtain ⟨inner, hinner, rfl⟩ := Option.map_eq_some_iff.1 h
    exact .array (TypeExpr.means_of_meaning? hinner)
  | .function params result span, type, h => by
    rw [meaning?] at h
    obtain ⟨types, htypes, hresult⟩ := Option.bind_eq_some_iff.1 h
    obtain ⟨last, hlast, rfl⟩ := Option.map_eq_some_iff.1 hresult
    exact .function (TypeExpr.means_of_meanings? htypes) (TypeExpr.means_of_meaning? hlast)

theorem TypeExpr.means_of_meanings? : ∀ {es : List TypeExpr} {types : List Ty},
    TypeExpr.meanings? es = some types → List.Forall₂ TypeExpr.Means es types
  | [], types, h => by
    rw [meanings?] at h
    obtain rfl := Option.some.inj h
    exact .nil
  | e :: es, types, h => by
    obtain ⟨type, more, rfl, htype, hmore⟩ := meanings?_cons_eq_some.1 h
    exact .cons (TypeExpr.means_of_meaning? htype) (TypeExpr.means_of_meanings? hmore)

end

theorem TypeForm.forall₂_of_trees? {f : TypeId → Option Ty} {ids : List TypeId} {types : List Ty}
    (h : trees? f ids = some types) :
    List.Forall₂ (fun id type => f id = some type) ids types := by
  induction ids generalizing types with
  | nil =>
    cases h
    exact .nil
  | cons id ids ih =>
    simp only [trees?, Option.bind_eq_bind, Option.bind_eq_some_iff, Option.pure_def,
      Option.some.injEq] at h
    obtain ⟨type, htype, more, hmore, rfl⟩ := h
    exact .cons htype (ih hmore)

/-! ## What a reading reports and finds -/

namespace TypeReading

/-- A reading reports each bad one of some names, in order, and nothing else, and finds something
exactly if it reports nothing. -/
structure Reports {α : Type} (file : SourceFile) (mentions : List Mention)
    (r : TypeReading α) : Prop where
  problems : r.problems = mentions.filterMap (Mention.problem? file)
  found : r.found.isSome ↔ r.problems = []

variable {file : SourceFile} {types : TypeStore} {held : List TypeId}

/-- A reading of a type finds one exactly if it has a meaning. -/
theorem Finds.isSome_found {r : TypeReading TypeId} {meaning? : Option Ty}
    (h : Finds types held r meaning?) : r.found.isSome = meaning?.isSome := by
  obtain ⟨hsound, -, rfl⟩ := h
  cases hfound : r.found with
  | none => rfl
  | some id =>
    rw [hfound] at hsound
    exact (hsound.denote?_isSome (hsound.held_resident id (by simp))).symm

theorem FindsAll.isSome_found {r : TypeReading (List TypeId)} {meanings? : Option (List Ty)}
    (h : FindsAll types held r meanings?) : r.found.isSome = meanings?.isSome := by
  obtain ⟨hsound, -, rfl⟩ := h
  cases hfound : r.found with
  | none => rfl
  | some ids =>
    rw [hfound] at hsound
    exact (TypeForm.trees?_isSome fun id hid => hsound.denote?_isSome
      (hsound.held_resident id (List.mem_append_left _ hid))).symm

/-- A type is read to what it means, or its bad names are reported. -/
theorem reports_ofExpr (h : types.Sound held) (e : TypeExpr) :
    (ofExpr file types e).Reports file e.mentions ∧
      ∀ id ∈ (ofExpr file types e).found,
        ∃ type, e.Means type ∧ (ofExpr file types e).types.denote? id = some type := by
  have hfinds : Finds types held (ofExpr file types e) e.meaning? := finds_ofExpr h e
  refine ⟨⟨?_, ?_⟩, fun id hid => ?_⟩
  · rw [problems_ofExpr, e.problems_eq_filterMap]
  · rw [problems_ofExpr, e.problems_eq_nil, hfinds.isSome_found]
  · obtain ⟨type, htype⟩ : ∃ type, e.meaning? = some type := by
      rw [← Option.isSome_iff_exists, ← hfinds.isSome_found, hid]
      rfl
    have hdenotes := hfinds.denotes
    rw [htype, hid, Option.bind_some] at hdenotes
    exact ⟨type, TypeExpr.means_of_meaning? htype, hdenotes.symm⟩

/-- A signature is read to what its types mean, or the bad names of all of them are reported. -/
theorem reports_ofSignature (h : types.Sound held) (f : FunctionItem) :
    (ofSignature file types f).Reports file f.mentions ∧
      ∀ ids ∈ (ofSignature file types f).found, ∃ tys,
        List.Forall₂ TypeExpr.Means (f.params.map (·.type) ++ [f.result]) tys ∧
        List.Forall₂ (fun id ty => (ofSignature file types f).types.denote? id = some ty)
          ids tys := by
  have hfinds : FindsAll types held (ofSignature file types f) _ := findsAll_ofSignature h f
  have hsome := hfinds.isSome_found
  rw [Option.isSome_map] at hsome
  refine ⟨⟨?_, ?_⟩, fun ids hids => ?_⟩
  · rw [problems_ofSignature, f.problems_eq_filterMap]
  · rw [problems_ofSignature, f.problems_eq_nil, hsome]
  · obtain ⟨⟨params, result⟩, hmeaning⟩ : ∃ signature, f.meaning? = some signature := by
      rw [← Option.isSome_iff_exists, ← hsome, hids]
      rfl
    have hdenotes := hfinds.denotes
    rw [hmeaning, hids, Option.bind_some, Option.map_some] at hdenotes
    unfold FunctionItem.meaning? at hmeaning
    obtain ⟨ps, hps, hlast⟩ := Option.bind_eq_some_iff.1 hmeaning
    obtain ⟨t, ht, hpair⟩ := Option.map_eq_some_iff.1 hlast
    obtain ⟨rfl, rfl⟩ := Prod.mk.inj hpair
    refine ⟨ps ++ [t], ?_, TypeForm.forall₂_of_trees? hdenotes.symm⟩
    exact List.rel_append (TypeExpr.means_of_meanings? hps)
      (.cons (TypeExpr.means_of_meaning? ht) .nil)

end TypeReading

/-! ## The order of the source -/

/-- A token as a name that is mentioned. -/
def Token.mention (t : Token) : Mention where
  name := t.text
  span := t.span

/-- Names are mentioned by some of the tokens, in order. -/
def MentionedBy (used : List Token) (mentions : List Mention) : Prop :=
  ∃ tokens : List Token, tokens.Sublist used ∧ tokens.map Token.mention = mentions

namespace MentionedBy

variable {used more : List Token} {mentions later : List Mention} {text : String}

theorem mono (h : MentionedBy used mentions) (hsub : used.Sublist more) :
    MentionedBy more mentions := by
  obtain ⟨tokens, htokens, hmentions⟩ := h
  exact ⟨tokens, htokens.trans hsub, hmentions⟩

theorem append (h : MentionedBy used mentions) (h' : MentionedBy more later) :
    MentionedBy (used ++ more) (mentions ++ later) := by
  obtain ⟨tokens, htokens, rfl⟩ := h
  obtain ⟨tokens', htokens', rfl⟩ := h'
  exact ⟨tokens ++ tokens', htokens.append htokens', List.map_append⟩

theorem flatMap {α : Type} {R : List Token → α → Prop} {mentionsOf : α → List Mention}
    (hR : ∀ piece a, R piece a → MentionedBy piece (mentionsOf a)) {as : List α}
    (h : Entries R used as) : MentionedBy used (as.flatMap mentionsOf) := by
  obtain ⟨pieces, hpieces, hsub⟩ := h.exists_pieces
  refine mono ?_ hsub
  clear h hsub
  induction hpieces with
  | nil => exact ⟨[], List.nil_sublist _, rfl⟩
  | cons hpiece _ ih =>
    rw [List.flatMap_cons, List.flatten_cons]
    exact (hR _ _ hpiece).append ih

/-- Names that are mentioned by tokens in their places stand in the text one after another. -/
theorem inOrder (h : MentionedBy used mentions) (hused : Placed text used) :
    (∀ m ∈ mentions, slice (bytesOf text) m.span = bytesOf m.name) ∧
      mentions.Pairwise fun a b => a.span.stop ≤ b.span.start := by
  obtain ⟨tokens, htokens, rfl⟩ := h
  have hplaced := hused.sublist htokens
  refine ⟨fun m hm => ?_, List.pairwise_map.2 hplaced.stop_le_start⟩
  obtain ⟨t, ht, rfl⟩ := List.mem_map.1 hm
  exact (hplaced.standsIn t ht).liesIn.text

end MentionedBy

namespace Grammar

variable {used : List Token}

theorem Layer.mentionedBy {P : List Token → TypeExpr → Prop} {e : TypeExpr}
    (hP : ∀ used e, P used e → MentionedBy used e.mentions) (h : Layer P used e) :
    MentionedBy used e.mentions := by
  cases h with
  | @named t _ =>
    rw [TypeExpr.mentions]
    exact ⟨[t], List.Sublist.refl _, rfl⟩
  | @pointer star qualifiers used pointee _ _ hpointee =>
    rw [TypeExpr.mentions]
    exact (hP _ _ hpointee).mono (sublist_rest star qualifiers used)
  | @manyPointer opener star closer qualifiers used pointee _ _ _ _ hpointee =>
    rw [TypeExpr.mentions]
    exact (hP _ _ hpointee).mono (sublist_rest opener (star :: closer :: qualifiers) used)
  | @array opener literal closer length used element _ _ _ _ helement =>
    rw [TypeExpr.mentions]
    exact (hP _ _ helement).mono (sublist_rest opener [literal, closer] used)
  | @function keyword opener used more params result _ _ hparams hresult =>
    rw [TypeExpr.mentions]
    have hall := (MentionedBy.flatMap hP hparams).append (hP _ _ hresult)
    exact hall.mono (sublist_rest keyword [opener] (used ++ more))

theorem TypeOf.mentionedBy {levels : Nat} {e : TypeExpr} (h : TypeOf levels used e) :
    MentionedBy used e.mentions := by
  induction levels generalizing used e with
  | zero => exact h.elim
  | succ levels ih => exact Layer.mentionedBy (fun _ _ he => ih he) h

theorem Parameter.mentionedBy {p : Param} (h : Parameter used p) :
    MentionedBy used p.type.mentions := by
  obtain ⟨-, -, htype⟩ := h
  rename_i name colon used type
  exact htype.mentionedBy.mono (sublist_rest name [colon] used)

theorem Function.mentionedBy {m : Modifiers} {f : FunctionItem} (h : Function m used f) :
    MentionedBy used f.mentions := by
  obtain ⟨-, -, -, hparams, hresult, -⟩ := h
  rename_i keyword opener name used more ending params result body stop
  have hall := (MentionedBy.flatMap (fun _ _ hp => hp.mentionedBy) hparams).append
    hresult.mentionedBy
  rw [FunctionItem.mentions]
  refine hall.mono (List.IsInfix.sublist ?_)
  exact ⟨keyword :: (name.toList ++ [opener]), ending, by simp⟩

end Grammar

/-- The names in a signature of a text stand in it one after another. -/
theorem FunctionItem.mentions_inOrder {text : String} {f : FunctionItem}
    (h : .function f ∈ (parse text).items) :
    (∀ m ∈ f.mentions, slice (bytesOf text) m.span = bytesOf m.name) ∧
      f.mentions.Pairwise fun a b => a.span.stop ≤ b.span.start := by
  obtain ⟨pieces, hpieces, hplaced⟩ := exists_pieces_of_parse text
  obtain ⟨piece, hpiece, hsub⟩ := exists_piece hpieces h
  cases hpiece with
  | @fn used more _ _ hfunction =>
    have hmentioned := hfunction.mentionedBy.mono (List.sublist_append_right used more)
    exact hmentioned.inOrder (hplaced.sublist hsub)

namespace TypeClient

end TypeClient

end IncrementalBuild
