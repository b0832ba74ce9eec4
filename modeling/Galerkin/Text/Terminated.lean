/-! # Terminated texts

Names of files and functions, values of environment variables and the full text of a report are
terminated texts: they end before the first NUL character. -/

namespace Galerkin

/-- **The part of a text before its first NUL character,** the whole text if it has none. -/
def terminated (text : String) : String :=
  String.ofList (text.toList.takeWhile (· != '\x00'))

/-- A terminated text has no NUL character. -/
theorem not_mem_terminated (text : String) : '\x00' ∉ (terminated text).toList := by
  intro h
  rw [terminated, String.toList_ofList] at h
  simpa using List.all_eq_true.mp (List.all_takeWhile (p := (· != '\x00'))) _ h

end Galerkin
