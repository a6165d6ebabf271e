import IncrementalBuild.Proofs.Types.Canonical
import IncrementalBuild.Proofs.Types.Reading
import IncrementalBuild.Proofs.Types.Spelling

/-!
# The written form of a type resolves to the type

A type that was read has a written form. In the place of any type in a declaration that is parsed
without errors, and resolves in the same tables to the same object, however the type was written
before.
-/

set_option autoImplicit false

namespace IncrementalBuild

open Grammar Reader TypeReading

/-- A reading that found an object found it for what the written type means, and the written form
of the object is that of its meaning. -/
theorem TypeReading.meaning_of_found {file : SourceFile} {types : TypeStore} {held : List TypeId}
    (h : types.Sound held) {e : TypeExpr} {id : TypeId}
    (hfound : (ofExpr file types e).found = some id) :
    ∃ ty, e.meaning? = some ty ∧ (ofExpr file types e).types.denote? id = some ty ∧
      (ofExpr file types e).types.text id = ty.text ∧
      (ofExpr file types e).types.Sound (id :: held) := by
  obtain ⟨hsound, -, hdenotes⟩ := @finds_ofExpr file types held h e
  rw [hfound] at hsound hdenotes
  have hsome := hsound.denote?_isSome (hsound.held_resident id (by simp))
  obtain ⟨ty, hty⟩ := Option.isSome_iff_exists.1 hsome
  refine ⟨ty, hdenotes.trans hty, hty, ?_, hsound⟩
  rw [TypeStore.text, hty]
  rfl

/-- What means the type that an object denotes is read as that object. -/
theorem TypeReading.found_of_meaning {types : TypeStore} {held : List TypeId}
    (h : types.Sound held) {id : TypeId} {ty : Ty} (hid : types.denote? id = some ty)
    {e : TypeExpr} (he : e.meaning? = some ty) (file : SourceFile) :
    (ofExpr file types e).found = some id ∧ (ofExpr file types e).problems = [] := by
  obtain ⟨hsound, hgrows, hdenotes⟩ := @finds_ofExpr file types held h e
  rw [he] at hdenotes
  obtain ⟨id', hfound, hid'⟩ := Option.bind_eq_some_iff.1 hdenotes.symm
  have hkept := h.denote?_mono hsound (fun _ hx => hgrows hx) (TypeStore.mem_ids_of_denote? hid)
  refine ⟨?_, ?_⟩
  · rw [hfound, hsound.eq_of_denote? hid' (hkept.trans hid)]
  · rw [problems_ofExpr, TypeExpr.problems_eq_nil, he]
    rfl

end IncrementalBuild
