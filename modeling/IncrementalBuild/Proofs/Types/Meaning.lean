import IncrementalBuild.Session.Signature

/-!
# What written types mean

A written type means a type if every name in it denotes one, and every name that does not is
a problem. Reading it reports these problems, from left to right, whatever the store.
-/

set_option autoImplicit false

namespace IncrementalBuild

/-! ## Meanings and problems -/

/-- The type a name denotes, as a tree. -/
def NamedType.toTy : NamedType → Ty
  | .primitive p => .primitive p
  | .int sign bits => .int sign bits

mutual

/-- The type a written type means, if every name in it denotes one. -/
def TypeExpr.meaning? : TypeExpr → Option Ty
  | .named name _ => ((NamedType.ofName? name).toOption.bind id).map NamedType.toTy
  | .pointer isConst isVolatile isMany pointee _ =>
    pointee.meaning?.map (.pointer · (TypeReading.qualifiers isConst isVolatile isMany))
  | .array length element _ => element.meaning?.map (.array · length)
  | .function params result _ =>
    (TypeExpr.meanings? params).bind fun ps => result.meaning?.map (.function ps · .unspecified)

/-- The types several written types mean. -/
def TypeExpr.meanings? : List TypeExpr → Option (List Ty)
  | [] => some []
  | e :: es => e.meaning?.bind fun t => (TypeExpr.meanings? es).map (t :: ·)

end

mutual

/-- The problems of a written type, one for each name that denotes none. -/
def TypeExpr.problems (file : SourceFile) : TypeExpr → List Diagnostic
  | .named name span =>
    match NamedType.ofName? name with
    | .ok (some _) => []
    | .ok none => [TypeReading.unknownProblem file name span]
    | .error e => [TypeReading.widthProblem file name span e]
  | .pointer _ _ _ pointee _ => pointee.problems file
  | .array _ element _ => element.problems file
  | .function params result _ => TypeExpr.allProblems file params ++ result.problems file

/-- The problems of several written types. -/
def TypeExpr.allProblems (file : SourceFile) : List TypeExpr → List Diagnostic
  | [] => []
  | e :: es => e.problems file ++ TypeExpr.allProblems file es

end

/-- The types of the parameters and the result of a function. -/
def FunctionItem.meaning? (f : FunctionItem) : Option (List Ty × Ty) :=
  (TypeExpr.meanings? (f.params.map (·.type))).bind fun ps => f.result.meaning?.map (ps, ·)

/-- The problems of a signature. -/
def FunctionItem.problems (file : SourceFile) (f : FunctionItem) : List Diagnostic :=
  TypeExpr.allProblems file (f.params.map (·.type)) ++ f.result.problems file

mutual

/-- A written type means a type if there is no problem. -/
theorem TypeExpr.problems_eq_nil (file : SourceFile) :
    ∀ e : TypeExpr, e.problems file = [] ↔ e.meaning?.isSome
  | .named name span => by
    rw [problems, meaning?]
    rcases NamedType.ofName? name with e | _ | t
    · simp [Except.toOption]
    · simp [Except.toOption]
    · simp [Except.toOption]
  | .pointer isConst isVolatile isMany pointee span => by
    rw [problems, meaning?, Option.isSome_map, pointee.problems_eq_nil file]
  | .array length element span => by
    rw [problems, meaning?, Option.isSome_map, element.problems_eq_nil file]
  | .function params result span => by
    rw [problems, meaning?, List.append_eq_nil_iff, TypeExpr.allProblems_eq_nil file params,
      result.problems_eq_nil file]
    cases TypeExpr.meanings? params <;> simp

theorem TypeExpr.allProblems_eq_nil (file : SourceFile) :
    ∀ es : List TypeExpr, TypeExpr.allProblems file es = [] ↔ (TypeExpr.meanings? es).isSome
  | [] => by
    rw [allProblems, meanings?]
    simp
  | e :: es => by
    rw [allProblems, meanings?, List.append_eq_nil_iff, e.problems_eq_nil file,
      TypeExpr.allProblems_eq_nil file es]
    cases e.meaning? <;> simp

end

theorem FunctionItem.problems_eq_nil (file : SourceFile) (f : FunctionItem) :
    f.problems file = [] ↔ f.meaning?.isSome := by
  rw [problems, meaning?, List.append_eq_nil_iff, TypeExpr.allProblems_eq_nil,
    TypeExpr.problems_eq_nil]
  cases TypeExpr.meanings? (f.params.map (·.type)) <;> simp

/-! ## What a reading reports -/

namespace TypeReading

variable {file : SourceFile} {types : TypeStore} {held : List TypeId}

theorem problems_ofName (name : String) (span : Span) :
    (ofName file types name span).problems = (TypeExpr.named name span).problems file := by
  unfold ofName TypeStore.named?
  rw [TypeExpr.problems]
  rcases NamedType.ofName? name with e | _ | t
  · rfl
  · rfl
  · cases t <;> rfl

theorem problems_wrap (r : TypeReading TypeId) (form : TypeId → TypeForm) :
    (r.wrap form).problems = r.problems := by
  unfold wrap
  split <;> rfl

theorem problems_append (before : TypeReading (List TypeId)) (next : TypeReading TypeId) :
    (before.append next).problems = before.problems ++ next.problems := by
  unfold append
  dsimp only
  split <;> rfl

theorem problems_toFunction (r : TypeReading (List TypeId)) (how : CallingConvention) :
    (r.toFunction how).problems = r.problems := by
  unfold toFunction
  split <;> rfl

mutual

/-- Reading a type reports its problems, from left to right. -/
theorem problems_ofExpr (file : SourceFile) (types : TypeStore) :
    ∀ e : TypeExpr, (ofExpr file types e).problems = e.problems file
  | .named name span => by rw [ofExpr, problems_ofName]
  | .pointer isConst isVolatile isMany pointee span => by
    rw [ofExpr, problems_wrap, TypeExpr.problems, problems_ofExpr file types pointee]
  | .array length element span => by
    rw [ofExpr, problems_wrap, TypeExpr.problems, problems_ofExpr file types element]
  | .function params result span => by
    rw [ofExpr, problems_toFunction, problems_append, TypeExpr.problems,
      problems_ofExprs file _ params, problems_ofExpr file _ result]
    rfl

theorem problems_ofExprs (file : SourceFile) (before : TypeReading (List TypeId)) :
    ∀ es : List TypeExpr,
      (ofExprs file before es).problems = before.problems ++ TypeExpr.allProblems file es
  | [] => by rw [ofExprs, TypeExpr.allProblems, List.append_nil]
  | e :: es => by
    rw [ofExprs, problems_ofExprs file _ es, problems_append, problems_ofExpr file _ e,
      TypeExpr.allProblems, List.append_assoc]

end

theorem problems_ofSignature (f : FunctionItem) :
    (ofSignature file types f).problems = f.problems file := by
  unfold ofSignature
  dsimp only
  rw [problems_append, problems_ofExprs, problems_ofExpr, List.nil_append, FunctionItem.problems]

end TypeReading

end IncrementalBuild
