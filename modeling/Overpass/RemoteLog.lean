import Overpass.AttrmetaRange

set_option autoImplicit false

namespace Rinq.Remotesession

variable {w : Nat}

/-- The loop of `logUpdate`, from the buffer `bufferpool.Get` returns; `buf ≠ ""` is
`buffer.Len() != 0`. -/
def logUpdateBuffer (render : Attrmeta.Attr w → String) (buf : String) :
    List (Attrmeta.Attr w) → String
  | [] => buf
  | attr :: attrs =>
    logUpdateBuffer render ((if buf ≠ "" then buf ++ ", " else buf) ++ render attr) attrs

/-- `logUpdate`: the line it logs. `attrmeta.Write` (here `render`), the short strings of the peer
and the ref, and the context's trace ID are not in the sources: they are parameters. -/
def logUpdate (render : Attrmeta.Attr w → String) (peer ref traceID : String)
    (attrs : List (Attrmeta.Attr w)) : String :=
  peer ++ " updated remote session " ++ ref ++ " \x7b" ++ logUpdateBuffer render "" attrs ++
    "\x7d [" ++ traceID ++ "]"

theorem logUpdateBuffer_of_ne (render : Attrmeta.Attr w → String) {buf : String}
    (full : buf ≠ "") (attrs : List (Attrmeta.Attr w)) :
    logUpdateBuffer render buf attrs = String.intercalate.go buf ", " (attrs.map render) := by
  induction attrs generalizing buf with
  | nil => rfl
  | cons attr attrs ih =>
    have grown : buf ++ ", " ++ render attr ≠ "" := fun empty => by
      have sized := congrArg String.length empty
      have separator : ", ".length = 2 := rfl
      simp only [String.length_append, separator] at sized
      exact absurd sized (by simp)
    simp only [logUpdateBuffer, if_pos full, ih grown, List.map_cons, String.intercalate.go]

/-- From the empty buffer, the loop writes the renderings with the leading empty ones dropped,
joined by `", "`. -/
theorem logUpdateBuffer_empty (render : Attrmeta.Attr w → String)
    (attrs : List (Attrmeta.Attr w)) :
    logUpdateBuffer render "" attrs = ", ".intercalate ((attrs.map render).dropWhile (· = "")) := by
  induction attrs with
  | nil => rfl
  | cons attr attrs ih =>
    by_cases blank : render attr = ""
    · have skipped : ("" :: attrs.map render).dropWhile (· = "") =
          (attrs.map render).dropWhile (· = "") := List.dropWhile_cons_of_pos (by simp)
      rw [logUpdateBuffer, if_neg (not_not.mpr rfl), String.empty_append, blank, ih, List.map_cons,
        blank, skipped]
    · rw [logUpdateBuffer, if_neg (not_not.mpr rfl), String.empty_append,
        logUpdateBuffer_of_ne render blank, List.map_cons,
        List.dropWhile_cons_of_neg (by simpa using blank)]
      cases attrs.map render <;> rfl

/-- The line `logUpdate` logs lists, between braces, the renderings of the updated attributes in
the order of the slice, joined by `", "`, once the leading ones that render to nothing are
dropped. -/
theorem logUpdate_eq (render : Attrmeta.Attr w → String) (peer ref traceID : String)
    (attrs : List (Attrmeta.Attr w)) :
    logUpdate render peer ref traceID attrs =
      peer ++ " updated remote session " ++ ref ++ " \x7b" ++
        ", ".intercalate ((attrs.map render).dropWhile (· = "")) ++ "\x7d [" ++ traceID ++ "]" := by
  rw [logUpdate, logUpdateBuffer_empty]

end Rinq.Remotesession
