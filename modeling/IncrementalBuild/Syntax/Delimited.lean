import IncrementalBuild.Syntax.Error

/-!
# Runs of tokens between delimiters

Bodies and initializers are not parsed but skipped: only their delimiters have to
match. `closing` finds the end of an open run, `initializerRest` the semicolon that
ends an initializer. Both leave a shorter list of tokens than they are given.
-/

set_option autoImplicit false

namespace IncrementalBuild

/-- The token that closes an open run, and the tokens after it. The run is open at
`innermost`, and around that at `outer`, the nearest first. A closer must match the
innermost opener; at the end of the tokens the innermost opener is left unclosed. -/
def closing (innermost : Token) (outer : List Token) :
    List Token → Except SyntaxError (Token × List Token)
  | [] => .error { cause := .unclosedDelimiter innermost.kind, span := innermost.span }
  | t :: rest =>
    if t.kind.isOpener then closing t (innermost :: outer) rest
    else if t.kind.isCloser then
      if innermost.kind.closer? = some t.kind then
        match outer with
        | [] => .ok (t, rest)
        | next :: outer => closing next outer rest
      else
        .error
          { cause := .unexpectedCloser t.kind, span := t.span, openedAt := some innermost.span }
    else closing innermost outer rest

/-- Closing a run uses up at least one token. -/
theorem length_lt_of_closing {innermost : Token} {outer tokens : List Token} {t : Token}
    {rest : List Token} (h : closing innermost outer tokens = .ok (t, rest)) :
    rest.length < tokens.length := by
  induction tokens generalizing innermost outer with
  | nil => simp [closing] at h
  | cons u us ih =>
    unfold closing at h
    split at h
    · have := ih h; simp only [List.length_cons]; omega
    · split at h
      · split at h
        · split at h
          · simp only [Except.ok.injEq, Prod.mk.injEq] at h
            simp [h.2]
          · have := ih h; simp only [List.length_cons]; omega
        · simp at h
      · have := ih h; simp only [List.length_cons]; omega

/-- The tokens from the semicolon that ends an initializer on, or no tokens if there is
none. Delimiters inside have to match, and no closer may stand outside of them. -/
def initializerRest (tokens : List Token) : Except SyntaxError (List Token) :=
  match tokens with
  | [] => .ok []
  | t :: rest =>
    if t.kind = .semicolon then .ok (t :: rest)
    else if t.kind.isCloser then .error { cause := .unexpectedCloser t.kind, span := t.span }
    else if t.kind.isOpener then
      match _h : closing t [] rest with
      | .ok (_, rest) => initializerRest rest
      | .error e => .error e
    else initializerRest rest
termination_by tokens.length
decreasing_by
  · have := length_lt_of_closing _h
    simp only [List.length_cons]
    omega
  · simp

end IncrementalBuild
