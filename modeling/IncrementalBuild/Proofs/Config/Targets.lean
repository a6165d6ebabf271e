import IncrementalBuild.Config.Target

/-!
# Targets and their written forms

Hyphens separate the parts of a written target, and a text is cut at a character in one way
(`cutAt_eq_iff`). So the texts that are read as a target are the written forms of the targets
without hyphens in their parts, and the word for the host, which is no such form.

## Main results

* `Target.parse?_eq_some_iff`: which texts are read as which targets.
-/

set_option autoImplicit false

namespace IncrementalBuild

/-! ## Cutting a text -/

section

variable {mark : Char} {cs piece : List Char} {pieces : List (List Char)}

theorem cutAt_eq_splitOn (mark : Char) (cs : List Char) : cutAt mark cs = cs.splitOn mark := by
  induction cs with
  | nil => rfl
  | cons c cs ih =>
    rw [cutAt, List.splitOn_cons_eq_if_modifyHead, ih]
    by_cases hc : c = mark
    · rw [if_pos hc, if_pos (beq_iff_eq.2 hc)]
    · rw [if_neg hc, if_neg (mt beq_iff_eq.1 hc)]
      obtain ⟨piece, pieces, hpieces⟩ :=
        List.exists_cons_of_ne_nil (List.splitOn_ne_nil mark cs)
      rw [hpieces, List.modifyHead_cons]

theorem notMem_of_mem_cutAt (h : piece ∈ cutAt mark cs) : mark ∉ piece := by
  fun_induction cutAt mark cs generalizing piece with
  | case1 =>
    rw [List.mem_singleton.1 h]
    exact List.not_mem_nil
  | case2 cs ih =>
    rcases List.mem_cons.1 h with rfl | h
    · exact List.not_mem_nil
    · exact ih h
  | case3 c cs hc hpieces ih =>
    rw [List.mem_singleton.1 h, List.mem_singleton]
    exact Ne.symm hc
  | case4 c cs hc first pieces hpieces ih =>
    rw [hpieces] at ih
    rcases List.mem_cons.1 h with rfl | h
    · rw [List.mem_cons, not_or]
      exact ⟨Ne.symm hc, ih (List.mem_cons_self ..)⟩
    · exact ih (List.mem_cons_of_mem first h)

/-- The pieces of a text are what has the text between marks and no mark in it. -/
theorem cutAt_eq_iff : cutAt mark cs = pieces ↔
    pieces ≠ [] ∧ (∀ piece ∈ pieces, mark ∉ piece) ∧ [mark].intercalate pieces = cs := by
  constructor
  · rintro rfl
    refine ⟨?_, fun piece => notMem_of_mem_cutAt, ?_⟩
    · rw [cutAt_eq_splitOn]
      exact List.splitOn_ne_nil mark cs
    · rw [cutAt_eq_splitOn]
      exact List.intercalate_splitOn mark
  · rintro ⟨hne, hpieces, rfl⟩
    rw [cutAt_eq_splitOn]
    exact List.splitOn_intercalate mark hpieces hne

end

namespace Target

/-! ## Written forms -/

/-- The parts of a target in the order they are written in. -/
def pieces (t : Target) : List (List Char) :=
  t.arch.toList :: t.os.toList :: (t.abi.map String.toList).toList

variable {t : Target} {s : String}

theorem toList_text (t : Target) : t.text.toList = ['-'].intercalate t.pieces := by
  cases habi : t.abi <;> simp [text, pieces, habi]

theorem ofPieces?_eq_some_iff {parts : List (List Char)} :
    ofPieces? parts = some t ↔ t.arch ≠ "" ∧ t.os ≠ "" ∧ parts = t.pieces := by
  constructor
  · intro h
    unfold ofPieces? at h
    split at h
    · split at h
      · cases h
      · cases h
        simp_all [pieces]
    · split at h
      · cases h
      · cases h
        simp_all [pieces]
    · cases h
  · rintro ⟨harch, hos, rfl⟩
    obtain ⟨arch, os, abi⟩ := t
    cases abi <;> simp_all [ofPieces?, pieces]

/-- A target that a text can be read as: it has an architecture and a system, and no hyphen stands
in any part. -/
structure Writable (t : Target) : Prop where
  arch_ne : t.arch ≠ ""
  os_ne : t.os ≠ ""
  arch : '-' ∉ t.arch.toList
  os : '-' ∉ t.os.toList
  abi : ∀ abi ∈ t.abi, '-' ∉ abi.toList

theorem writable_iff :
    t.Writable ↔ t.arch ≠ "" ∧ t.os ≠ "" ∧ ∀ piece ∈ t.pieces, '-' ∉ piece := by
  constructor
  · rintro ⟨harch_ne, hos_ne, harch, hos, habi⟩
    refine ⟨harch_ne, hos_ne, ?_⟩
    simpa [pieces] using ⟨harch, hos, habi⟩
  · rintro ⟨harch_ne, hos_ne, hpieces⟩
    have hparts : '-' ∉ t.arch.toList ∧ '-' ∉ t.os.toList ∧ ∀ abi ∈ t.abi, '-' ∉ abi.toList := by
      simpa [pieces] using hpieces
    exact ⟨harch_ne, hos_ne, hparts.1, hparts.2.1, hparts.2.2⟩

/-- The word for the host has no hyphen, and a written form has. -/
theorem text_ne_hostWord (t : Target) : t.text ≠ hostWord := by
  intro h
  have hmem : '-' ∈ t.text.toList := by simp [text]
  rw [h] at hmem
  revert hmem
  decide

theorem parse?_eq_some_iff (h : s ≠ hostWord) :
    parse? s = some t ↔ t.Writable ∧ t.text = s := by
  rw [parse?, if_neg h, ofPieces?_eq_some_iff, cutAt_eq_iff, writable_iff, ← toList_text,
    String.toList_inj]
  constructor
  · rintro ⟨harch, hos, -, hpieces, htext⟩
    exact ⟨⟨harch, hos, hpieces⟩, htext⟩
  · rintro ⟨⟨harch, hos, hpieces⟩, htext⟩
    exact ⟨harch, hos, List.cons_ne_nil _ _, hpieces, htext⟩

/-- A text other than the word for the host that is read as a target is the written form of that
target, and is read so again. A target with an architecture, a system and no hyphen in any part is
what its written form is read as. -/
theorem targets_round_trip :
    (∀ s t, s ≠ hostWord → parse? s = some t → t.text = s ∧ parse? t.text = some t) ∧
    ∀ t : Target, t.Writable → t.text ≠ hostWord ∧ parse? t.text = some t := by
  refine ⟨fun s t hs hparse => ?_, fun t ht => ?_⟩
  · obtain ⟨-, htext⟩ := (parse?_eq_some_iff hs).1 hparse
    exact ⟨htext, by rw [htext, hparse]⟩
  · have hne := t.text_ne_hostWord
    exact ⟨hne, (parse?_eq_some_iff hne).2 ⟨ht, rfl⟩⟩

/-- A target with an empty binary interface, which is not the same as none. -/
def emptyAbi : Target where
  arch := "wasm32"
  os := "wasi"
  abi := some ""

theorem emptyAbi_round_trips :
    "wasm32-wasi-" ≠ hostWord ∧ parse? "wasm32-wasi-" = some emptyAbi ∧
    emptyAbi.text = "wasm32-wasi-" ∧ emptyAbi.Writable ∧ parse? emptyAbi.text = some emptyAbi := by
  have hne : "wasm32-wasi-" ≠ hostWord := by decide
  have hparse : parse? "wasm32-wasi-" = some emptyAbi := by decide
  have hwritable : emptyAbi.Writable := writable_iff.2 (by decide)
  exact ⟨hne, hparse, (targets_round_trip.1 _ _ hne hparse).1, hwritable,
    (targets_round_trip.2 _ hwritable).2⟩

end Target

end IncrementalBuild
