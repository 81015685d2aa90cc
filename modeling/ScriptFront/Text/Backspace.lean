import ScriptFront.Text.Cluster

/-!
# Backspaces

A line may hold backspaces, as it was typed. Each of them takes back the cluster
before it, and is not part of the line itself; at the start of the line it takes
back nothing. Clusters are those of the line as it was typed: what is left
between two others does not join them.

The size of a cluster is its number of bytes, kept in one byte. A cluster of 256
bytes or more is thus taken back in part, by the bytes at its end.
-/

namespace ScriptFront.Text

/-- The size of a cluster, kept in one byte. -/
def clusterSize (cluster : List Char) : Nat := cluster.foldl (fun n c => n + c.utf8Size) 0 % 256

/-- Leaves out characters until `n` bytes are gone. -/
def dropBytes : (n : Nat) → List Char → List Char
  | 0, cs => cs
  | _ + 1, [] => []
  | n + 1, c :: cs => dropBytes (n + 1 - c.utf8Size) cs

/-- A line that is being typed. -/
structure Typed where
  /-- The characters of the line, the last one first. -/
  chars : List Char
  /-- The sizes of the clusters that can be taken back, the last one first. -/
  sizes : List Nat

namespace Typed

/-- The line after one more cluster, or a backspace, was typed. -/
def push (line : Typed) (cluster : List Char) : Typed :=
  if cluster = ['\x08'] then
    match line.sizes with
    | [] => line
    | n :: sizes => ⟨dropBytes n line.chars, sizes⟩
  else ⟨cluster.reverse ++ line.chars, clusterSize cluster :: line.sizes⟩

end Typed

/-- The line that was meant, when `line` was typed. -/
def applyBackspaces (line : String) : String :=
  String.ofList ((clusters line.toList).foldl Typed.push ⟨[], []⟩).chars.reverse

/-- Where no backspace is typed, every cluster stays on the line. -/
theorem Typed.chars_foldl_push {css : List (List Char)} (h : ∀ cs ∈ css, cs ≠ ['\x08'])
    (line : Typed) : (css.foldl push line).chars = css.flatten.reverse ++ line.chars := by
  induction css generalizing line with
  | nil => simp
  | cons cs css ih =>
    rw [List.forall_mem_cons] at h
    rw [List.foldl_cons, ih h.2, push, if_neg h.1]
    simp

/-- A line without backspaces is meant as it was typed. -/
theorem applyBackspaces_of_not_mem {line : String} (h : '\x08' ∉ line.toList) :
    applyBackspaces line = line := by
  have hclusters : ∀ cs ∈ clusters line.toList, cs ≠ ['\x08'] := by
    rintro _ hcs rfl
    refine h ?_
    rw [← flatten_clusters line.toList]
    exact List.mem_flatten_of_mem hcs (List.mem_singleton_self _)
  rw [applyBackspaces, Typed.chars_foldl_push hclusters, flatten_clusters]
  simp

end ScriptFront.Text
