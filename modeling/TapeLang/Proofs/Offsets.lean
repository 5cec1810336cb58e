import TapeLang.Proofs.Pairing

/-!
# Indices and offsets

Every index of a token stands for an offset in the text without comments, and the tokens between two indices for the
text between their offsets.  On the scan of an accepted text these conversions are exact and can be undone
(`offsets_are_exact`).

All of it rests on one equation: the offset of an index is the length of the text of the tokens before it
(`Scan.Placed.offsetOf_eq`).  No token is empty, so offsets ascend, and halving the stretch in which the token at an
offset must be leads to it.
-/

namespace TapeLang

namespace Scan

variable {s : Scan} {i j k offset : Nat}

/-- The token that starts at an offset, found by going through the tokens one after the other. -/
def firstAt? (s : Scan) (offset : Nat) : Option Nat :=
  if offset = s.text.length then some s.tokens.length
  else s.tokens.findIdx? fun t => t.start == offset

/-- The text of the tokens from index `i` up to `j`, spelled out token by token; indices past the last token stand for
the end. -/
def spelling (s : Scan) (i j : Nat) : List UInt8 :=
  ((s.tokens.take j).drop i).flatMap fun t => List.replicate t.count t.symbol.toByte

/-! ### Offsets -/

theorem lengthOf_pos {ts : List Token} (valid : ∀ t ∈ ts, t.Valid) (ne : ts ≠ []) : 0 < lengthOf ts := by
  cases ts with
  | nil => exact absurd rfl ne
  | cons t ts =>
    have := (valid t (by simp)).pos
    rw [lengthOf_cons]
    omega

/-- The offset of an index is the length of what stands before. -/
theorem Placed.offsetOf_eq (h : s.Placed) (i : Nat) : s.offsetOf i = lengthOf (s.tokens.take i) := by
  by_cases inside : i ≤ s.tokens.length
  · have := h.offsetOf (List.take_append_drop i s.tokens).symm
    rwa [List.length_take, Nat.min_eq_left inside] at this
  · rw [Scan.offsetOf, List.getElem?_eq_none (by omega), List.take_of_length_le (by omega), h.length_text]

theorem Placed.offsetOf_le (h : s.Placed) (i : Nat) : s.offsetOf i ≤ s.text.length := by
  have whole := lengthOf_append (s.tokens.take i) (s.tokens.drop i)
  rw [List.take_append_drop] at whole
  rw [h.offsetOf_eq, h.length_text, whole]
  omega

theorem take_append_between (ts : List Token) (le : i ≤ j) : ts.take i ++ (ts.take j).drop i = ts.take j := by
  have first : (ts.take j).take i = ts.take i := by rw [List.take_take, Nat.min_eq_left le]
  rw [← first, List.take_append_drop]

/-- Between two indices the offset grows by the length of the tokens between them. -/
theorem Placed.offsetOf_add (h : s.Placed) (le : i ≤ j) :
    s.offsetOf j = s.offsetOf i + lengthOf ((s.tokens.take j).drop i) := by
  rw [h.offsetOf_eq, h.offsetOf_eq, ← lengthOf_append, take_append_between _ le]

theorem Placed.offsetOf_mono (h : s.Placed) (le : i ≤ j) : s.offsetOf i ≤ s.offsetOf j := by
  rw [h.offsetOf_add le]
  omega

theorem Placed.offsetOf_lt (h : s.Placed) (lt : i < j) (bound : j ≤ s.tokens.length) :
    s.offsetOf i < s.offsetOf j := by
  have some_between : (s.tokens.take j).drop i ≠ [] := by
    intro none
    have := congrArg List.length none
    rw [List.length_drop, List.length_take, List.length_nil] at this
    omega
  have pos := lengthOf_pos (fun t ht => h.valid t (List.mem_of_mem_take (List.mem_of_mem_drop ht))) some_between
  rw [h.offsetOf_add (Nat.le_of_lt lt)]
  omega

theorem offsetOf_of_length_le (le : s.tokens.length ≤ i) : s.offsetOf i = s.text.length := by
  rw [offsetOf, List.getElem?_eq_none le]

theorem Placed.offsetOf_injective (h : s.Placed) (hi : i ≤ s.tokens.length) (hj : j ≤ s.tokens.length)
    (same : s.offsetOf i = s.offsetOf j) : i = j := by
  rcases Nat.lt_trichotomy i j with lt | eq | gt
  · have := h.offsetOf_lt lt hj
    omega
  · exact eq
  · have := h.offsetOf_lt gt hi
    omega

/-! ### The token at an offset -/

theorem getElem?_start :
    (s.tokens.map Token.start)[i]? = some offset ↔ i < s.tokens.length ∧ s.offsetOf i = offset := by
  rw [List.getElem?_map, offsetOf]
  constructor
  · intro here
    obtain ⟨t, ht, rfl⟩ := Option.map_eq_some_iff.1 here
    rw [ht]
    exact ⟨(List.getElem?_eq_some_iff.1 ht).1, rfl⟩
  · rintro ⟨inside, rfl⟩
    rw [List.getElem?_eq_getElem inside]
    rfl

theorem Placed.offsetOf_eq_length_iff (h : s.Placed) :
    i ≤ s.tokens.length ∧ s.offsetOf i = s.text.length ↔ i = s.tokens.length := by
  constructor
  · rintro ⟨bound, atEnd⟩
    exact h.offsetOf_injective bound (Nat.le_refl _) (atEnd.trans (offsetOf_of_length_le (Nat.le_refl _)).symm)
  · rintro rfl
    exact ⟨Nat.le_refl _, offsetOf_of_length_le (Nat.le_refl _)⟩

/-- Away from the end of the text, only a token of the list can stand at an offset. -/
theorem offsetOf_eq_iff (away : offset ≠ s.text.length) :
    i ≤ s.tokens.length ∧ s.offsetOf i = offset ↔ i < s.tokens.length ∧ s.offsetOf i = offset := by
  constructor
  · rintro ⟨bound, rfl⟩
    rcases Nat.lt_or_eq_of_le bound with lt | rfl
    · exact ⟨lt, rfl⟩
    · exact absurd (offsetOf_of_length_le (Nat.le_refl _)) away
  · rintro ⟨lt, rfl⟩
    exact ⟨Nat.le_of_lt lt, rfl⟩

/-- The search finds a token wherever one starts, and the end of the text. -/
theorem Placed.tokenAt?_eq_some_iff (h : s.Placed) :
    s.tokenAt? offset = some i ↔ i ≤ s.tokens.length ∧ s.offsetOf i = offset := by
  by_cases atEnd : offset = s.text.length
  · rw [Scan.tokenAt?, if_pos atEnd, atEnd, h.offsetOf_eq_length_iff, Option.some.injEq, eq_comm]
  · rw [Scan.tokenAt?, if_neg atEnd, bisect_eq_some_iff h.pairwise_start (by simp), getElem?_start,
      offsetOf_eq_iff atEnd]
    constructor
    · rintro ⟨-, -, found⟩
      exact found
    · rintro ⟨inside, here⟩
      exact ⟨Nat.zero_le i, inside, inside, here⟩

theorem Placed.firstAt?_eq_some_iff (h : s.Placed) :
    s.firstAt? offset = some i ↔ i ≤ s.tokens.length ∧ s.offsetOf i = offset := by
  by_cases atEnd : offset = s.text.length
  · rw [firstAt?, if_pos atEnd, atEnd, h.offsetOf_eq_length_iff, Option.some.injEq, eq_comm]
  · have start {j : Nat} (inside : j < s.tokens.length) : s.tokens[j].start = s.offsetOf j := by
      rw [Scan.offsetOf, List.getElem?_eq_getElem inside]
    rw [firstAt?, if_neg atEnd, offsetOf_eq_iff atEnd, List.findIdx?_eq_some_iff_getElem]
    constructor
    · rintro ⟨inside, here, -⟩
      exact ⟨inside, by simpa [start inside] using here⟩
    · rintro ⟨inside, rfl⟩
      refine ⟨inside, by simp [start inside], fun j lt => ?_⟩
      have := h.offsetOf_lt lt (Nat.le_of_lt inside)
      have := start (Nat.lt_trans lt inside)
      simp
      omega

/-- Whether tokens are gone through one after the other or halved, the same one is found. -/
theorem Placed.firstAt?_eq (h : s.Placed) (offset : Nat) : s.firstAt? offset = s.tokenAt? offset := by
  refine Option.ext fun i => ?_
  rw [h.firstAt?_eq_some_iff, h.tokenAt?_eq_some_iff]

/-! ### The text between indices -/

theorem spelling_append (s : Scan) (first : i ≤ j) (second : j ≤ k) :
    s.spelling i j ++ s.spelling j k = s.spelling i k := by
  have parts : (s.tokens.take k).drop i = (s.tokens.take j).drop i ++ (s.tokens.take k).drop j := by
    refine (List.append_right_inj (s.tokens.take i)).1 ?_
    rw [take_append_between _ (Nat.le_trans first second), ← List.append_assoc, take_append_between _ first,
      take_append_between _ second]
  rw [spelling, spelling, spelling, parts, List.flatMap_append]

theorem Placed.length_spelling (h : s.Placed) (le : i ≤ j) :
    s.offsetOf j = s.offsetOf i + (s.spelling i j).length := by
  have length : (s.spelling i j).length = lengthOf ((s.tokens.take j).drop i) := by
    simp [spelling, lengthOf, Token.spell, List.length_flatMap]
  rw [length, h.offsetOf_add le]

theorem Placed.length_spelling_zero (h : s.Placed) (i : Nat) : (s.spelling 0 i).length = s.offsetOf i := by
  have start : s.offsetOf 0 = 0 := by rw [h.offsetOf_eq]; rfl
  rw [h.length_spelling (Nat.zero_le i), start, Nat.zero_add]

theorem Placed.text_eq (h : s.Placed) (le : s.tokens.length ≤ k) : s.text = s.spelling 0 k := by
  rw [h.text, spelling, List.take_of_length_le le, List.drop_zero, List.map_flatMap]
  simp only [Token.spell, List.map_replicate]

theorem Placed.slice?_eq (h : s.Placed) (le : i ≤ j) : s.slice? i j = some (s.spelling i j) := by
  have front : s.text.take (s.offsetOf j) = s.spelling 0 j := by
    rw [h.text_eq (Nat.le_max_right j s.tokens.length),
      ← spelling_append s (Nat.zero_le j) (Nat.le_max_left j s.tokens.length), ← h.length_spelling_zero,
      List.take_left]
  have back : (s.spelling 0 j).drop (s.offsetOf i) = s.spelling i j := by
    rw [← spelling_append s (Nat.zero_le i) le, ← h.length_spelling_zero, List.drop_left]
  rw [slice?, if_pos (h.offsetOf_mono le), front, back]

/-- Indices of tokens and offsets of the text can be exchanged for each other. -/
structure Convertible (s : Scan) : Prop where
  tokenAt : ∀ offset i, s.tokenAt? offset = some i ↔ i ≤ s.tokens.length ∧ s.offsetOf i = offset
  /-- It does not matter how the token is looked for. -/
  firstAt : ∀ offset, s.firstAt? offset = s.tokenAt? offset
  increasing : ∀ i j, i < j → j ≤ s.tokens.length → s.offsetOf i < s.offsetOf j
  constant : ∀ i, s.tokens.length ≤ i → s.offsetOf i = s.text.length
  /-- There is a text between any two indices in order, and it is spelled by the tokens between them. -/
  slice : ∀ i j, i ≤ j → s.offsetOf i ≤ s.offsetOf j ∧ s.offsetOf j ≤ s.text.length ∧
    s.slice? i j = some (s.spelling i j)
  joined : ∀ i j k, i ≤ j → j ≤ k → ∃ first second, s.slice? i j = some first ∧ s.slice? j k = some second ∧
    s.slice? i k = some (first ++ second)

end Scan

/-- On the scan of a text that is accepted, indices and offsets are converted exactly. -/
theorem offsets_are_exact {source : List UInt8} {scan : Scan} (h : Scan.ofSource source = .ok scan) :
    scan.Convertible := by
  have placed := Scan.placed_ofMarks (marks source)
  obtain rfl := Scan.eq_ofMarks h
  refine ⟨fun offset i => placed.tokenAt?_eq_some_iff, placed.firstAt?_eq, fun i j => placed.offsetOf_lt,
    fun i => Scan.offsetOf_of_length_le, ?_, ?_⟩
  · intro i j le
    exact ⟨placed.offsetOf_mono le, placed.offsetOf_le j, placed.slice?_eq le⟩
  · intro i j k first second
    refine ⟨_, _, placed.slice?_eq first, placed.slice?_eq second, ?_⟩
    rw [Scan.spelling_append _ first second]
    exact placed.slice?_eq (Nat.le_trans first second)

/-- `+ [>]` behind 255 times `+`. -/
private def runBehindFullRun : List UInt8 :=
  List.replicate 255 '+'.toUInt8 ++ '+'.toUInt8 :: ' '.toUInt8 :: Idiom.spelling [.opening, .right, .closing]

/-- No token starts inside the full run, the next one at its end, and the text of both goes across it. -/
theorem offsets_are_exact_across_runs :
    ∃ scan, Scan.ofSource runBehindFullRun = .ok scan ∧ scan.Convertible ∧ scan.tokens.length = 5 ∧
      scan.tokenAt? 254 = none ∧ scan.tokenAt? 255 = some 1 ∧ scan.tokenAt? 259 = some 5 ∧
      scan.slice? 1 9 = some (Idiom.spelling [.inc, .opening, .right, .closing]) := by
  have accepted : Scan.ofSource runBehindFullRun = .ok (Scan.ofMarks (marks runBehindFullRun)) := by decide +kernel
  have convertible := offsets_are_exact accepted
  refine ⟨_, accepted, convertible, by decide +kernel, ?_, ?_, ?_, by decide +kernel⟩
  · rw [← convertible.firstAt]
    decide +kernel
  · rw [← convertible.firstAt]
    decide +kernel
  · rw [← convertible.firstAt]
    decide +kernel

end TapeLang
