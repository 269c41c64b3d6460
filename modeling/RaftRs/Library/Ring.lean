import Mathlib.Data.Nat.ModEq

namespace RaftRs.Library

/-- A buffer that is read from a start with wrap-around shows a list of items. -/
structure Ring {α : Type*} (buffer : List α) (cap start : Nat) (items : List α) : Prop where
  shown : ∀ k item, items[k]? = some item → buffer[(start + k) % cap]? = some item
  fits : items.length ≤ cap
  begins : start < cap ∨ start = 0
  bounded : buffer.length ≤ cap
  /-- A buffer that is not yet at its full length has no wrapped item. -/
  filled : start + items.length ≤ buffer.length ∨ buffer.length = cap

namespace Ring

variable {α : Type*} {buffer items : List α} {cap cap' start : Nat}

theorem empty (cap : Nat) : Ring ([] : List α) cap 0 [] :=
  ⟨fun k item present => by simp at present, Nat.zero_le _, Or.inr rfl, Nat.zero_le _, Or.inl le_rfl⟩

theorem start_le (ring : Ring buffer cap start items) : start ≤ cap := by
  rcases ring.begins with inside | zero <;> omega

/-- The first item lies at the start. -/
theorem head {item : α} {rest : List α} (ring : Ring buffer cap start (item :: rest)) :
    buffer[start]? = some item := by
  have found := ring.shown 0 item rfl
  rcases ring.begins with inside | rfl
  · rwa [Nat.add_zero, Nat.mod_eq_of_lt inside] at found
  · rwa [Nat.add_zero, Nat.zero_mod] at found

theorem wrap_eq (begins : start < cap ∨ start = 0) {k : Nat} (inside : k ≤ cap) :
    (if start + k ≥ cap then start + k - cap else start + k) = (start + k) % cap := by
  by_cases past : start + k ≥ cap
  · rw [if_pos past]
    rcases Nat.eq_zero_or_pos cap with rfl | positive
    · simp
    · rw [Nat.mod_eq_sub_mod past, Nat.mod_eq_of_lt]
      omega
  · rw [if_neg past, Nat.mod_eq_of_lt (by omega)]

/-- Two items of a window of at most the capacity lie in different slots. -/
theorem slot_ne {j k : Nat} (before : j < k) (inside : k < cap) :
    (start + j) % cap ≠ (start + k) % cap := by
  intro same
  have equal := Nat.ModEq.add_left_cancel' start same
  rw [Nat.ModEq, Nat.mod_eq_of_lt (by omega), Nat.mod_eq_of_lt inside] at equal
  omega

/-- The slot behind the window exists or is the next one of the buffer. -/
theorem next_le (ring : Ring buffer cap start items) (room : items.length < cap) :
    (start + items.length) % cap ≤ buffer.length := by
  have below := Nat.mod_lt (start + items.length) (Nat.zero_lt_of_lt room)
  rcases ring.filled with unwrapped | full
  · exact (Nat.mod_le _ _).trans unwrapped
  · omega

/-- An item that is written behind the window is shown last. -/
theorem push (ring : Ring buffer cap start items) (room : items.length < cap) (item : α) :
    Ring (if (start + items.length) % cap = buffer.length then buffer ++ [item]
      else buffer.set ((start + items.length) % cap) item) cap start (items ++ [item]) := by
  have below := Nat.mod_lt (start + items.length) (Nat.zero_lt_of_lt room)
  have next := ring.next_le room
  have bounded := ring.bounded
  have begins := ring.begins
  have wrapped := wrap_eq ring.begins room.le
  have filled := ring.filled
  split
  next last =>
    refine ⟨fun k other present => ?_, by rw [List.length_append]; exact room,
      begins, by simp; omega, Or.inl ?_⟩
    · rcases Nat.lt_or_ge k items.length with old | new
      · rw [List.getElem?_append_left old] at present
        have found := ring.shown k other present
        rw [List.getElem?_append_left (List.getElem?_eq_some_iff.1 found).1]
        exact found
      · rw [List.getElem?_append_right new] at present
        obtain ⟨at', value⟩ := List.getElem?_eq_some_iff.1 present
        have zero : k = items.length := by simp at at'; omega
        subst zero
        simp only [Nat.sub_self, List.getElem_cons_zero] at value
        rw [last, List.getElem?_append_right le_rfl, Nat.sub_self, value]
        rfl
    · simp only [List.length_append, List.length_singleton]
      split at wrapped <;> omega
  next inside =>
    have slot : (start + items.length) % cap < buffer.length := by omega
    refine ⟨fun k other present => ?_, by rw [List.length_append]; exact room,
      begins, by simpa using bounded, ?_⟩
    · rcases Nat.lt_or_ge k items.length with old | new
      · rw [List.getElem?_append_left old] at present
        rw [List.getElem?_set_ne (slot_ne old room).symm]
        exact ring.shown k other present
      · rw [List.getElem?_append_right new] at present
        obtain ⟨at', value⟩ := List.getElem?_eq_some_iff.1 present
        have zero : k = items.length := by simp at at'; omega
        subst zero
        simp only [Nat.sub_self, List.getElem_cons_zero] at value
        rw [List.getElem?_set_self slot, value]
    · simp only [List.length_append, List.length_singleton, List.length_set]
      split at wrapped <;> omega

/-- A start that moves forward drops the first items. -/
theorem drop (ring : Ring buffer cap start items) {n : Nat} (inside : n ≤ items.length) :
    Ring buffer cap ((start + n) % cap) (items.drop n) := by
  have fits := ring.fits
  have begins := ring.begins
  have bounded := ring.bounded
  have wrapped := wrap_eq ring.begins (inside.trans fits)
  have filled := ring.filled
  refine ⟨fun k item present => ?_, by simp; omega, ?_, bounded, ?_⟩
  · rw [List.getElem?_drop] at present
    rw [Nat.mod_add_mod, Nat.add_assoc]
    exact ring.shown (n + k) item present
  · rcases Nat.eq_zero_or_pos cap with rfl | positive
    · right
      simp only [Nat.mod_zero]
      omega
    · exact Or.inl (Nat.mod_lt _ positive)
  · rw [List.length_drop, ← wrapped]
    split <;> omega

/-- A window that does not wrap is shown under a larger capacity as well. -/
theorem grow (ring : Ring buffer cap start items) (unwrapped : start + items.length ≤ cap)
    (larger : cap < cap') :
    Ring buffer cap' start items := by
  have bounded := ring.bounded
  have filled := ring.filled
  refine ⟨fun k item present => ?_, ring.fits.trans larger.le,
    Or.inl (by have := ring.start_le; omega), by omega,
    Or.inl (by omega)⟩
  have inside := (List.getElem?_eq_some_iff.1 present).1
  have found := ring.shown k item present
  rwa [Nat.mod_eq_of_lt (by omega)] at found ⊢

/-- A wrapped window fills its buffer and is shown from the front after its two parts are joined. -/
theorem unwrap (ring : Ring buffer cap start items) (wraps : cap < start + items.length)
    (larger : cap < cap') :
    buffer.length = cap ∧
      Ring (buffer.drop start ++ buffer.take (items.length - (cap - start))) cap' 0 items := by
  have bounded := ring.bounded
  have fits := ring.fits
  have inside := ring.start_le
  have full : buffer.length = cap := by
    rcases ring.filled with unwrapped | full
    · omega
    · exact full
  have size : (buffer.drop start ++ buffer.take (items.length - (cap - start))).length =
      items.length := by
    rw [List.length_append, List.length_drop, List.length_take]
    omega
  refine ⟨full, fun k item present => ?_, fits.trans larger.le, Or.inr rfl,
    size.le.trans (fits.trans larger.le), Or.inl (by rw [size, Nat.zero_add])⟩
  have member := (List.getElem?_eq_some_iff.1 present).1
  have found := ring.shown k item present
  rw [← wrap_eq ring.begins (by omega)] at found
  rw [Nat.zero_add, Nat.mod_eq_of_lt (by omega)]
  by_cases past : start + k ≥ cap
  · rw [if_pos past] at found
    rw [List.getElem?_append_right (by rw [List.length_drop]; omega), List.length_drop,
      List.getElem?_take_of_lt (by omega), ← found]
    congr 1
    omega
  · rw [if_neg past] at found
    rw [List.getElem?_append_left (by rw [List.length_drop]; omega), List.getElem?_drop]
    exact found

end Ring

end RaftRs.Library
