import RaftRs.Model.Storage

namespace RaftRs

/-- Entries carry consecutive indexes from a first one. -/
def Contiguous (first : Nat) (ents : List Entry) : Prop :=
  ∀ k entry, ents[k]? = some entry → entry.index = first + k

@[simp] theorem contiguous_nil (first : Nat) : Contiguous first [] := by
  intro k entry present
  simp at present

theorem contiguous_cons {first : Nat} {entry : Entry} {rest : List Entry} :
    Contiguous first (entry :: rest) ↔ entry.index = first ∧ Contiguous (first + 1) rest := by
  constructor
  · intro whole
    refine ⟨whole 0 entry rfl, fun k other present => ?_⟩
    have := whole (k + 1) other (by simpa using present)
    omega
  · rintro ⟨start, continues⟩ k other present
    cases k with
    | zero =>
        obtain rfl : entry = other := by simpa using present
        exact start
    | succ k =>
        have := continues k other (by simpa using present)
        omega

theorem Contiguous.append {first : Nat} {ents more : List Entry} (left : Contiguous first ents)
    (right : Contiguous (first + ents.length) more) : Contiguous first (ents ++ more) := by
  intro k entry present
  rcases Nat.lt_or_ge k ents.length with inside | beyond
  · rw [List.getElem?_append_left inside] at present
    exact left k entry present
  · rw [List.getElem?_append_right beyond] at present
    have := right (k - ents.length) entry present
    omega

theorem Contiguous.take {first : Nat} {ents : List Entry} (whole : Contiguous first ents) (n : Nat) :
    Contiguous first (ents.take n) := by
  intro k entry present
  rw [List.getElem?_take] at present
  split at present
  · exact whole k entry present
  · cases present

/-- An end of contiguous entries is contiguous. -/
theorem Contiguous.drop {first : Nat} {ents : List Entry} (whole : Contiguous first ents) (n : Nat) :
    Contiguous (first + n) (ents.drop n) := by
  intro k entry present
  rw [List.getElem?_drop] at present
  have := whole (n + k) entry present
  omega

/-- The last of contiguous entries has the last index. -/
theorem Contiguous.last {first : Nat} {ents : List Entry} (whole : Contiguous first ents) {entry : Entry}
    (last : ents.getLast? = some entry) : entry.index + 1 = first + ents.length := by
  rw [List.getLast?_eq_getElem?] at last
  have index := whole _ entry last
  have inside := (List.getElem?_eq_some_iff.1 last).1
  omega

theorem Contiguous.head {first : Nat} {ents : List Entry} (whole : Contiguous first ents) {entry : Entry}
    (start : ents.head? = some entry) : entry.index = first := by
  rw [List.head?_eq_getElem?] at start
  simpa using whole 0 entry start

end RaftRs
