import TapeLang.Proofs.Places

/-!
# Comments never matter

A text and the same text without comments have the same symbols, which only stand at other positions (`marks_clean`).
So both are scanned to the same tokens and pairs of brackets and translated to the same program, or fail with the same
error, at bytes that correspond (`comments_never_matter`).  In the text without comments a token stands where it
starts.
-/

namespace TapeLang

/-- The bytes that are no comment. -/
def meaningfulBytes : List UInt8 := ['>', '<', '+', '-', '.', ',', '[', ']'].map Char.toUInt8

/-- The text without its comments. -/
def clean (source : List UInt8) : List UInt8 := source.filter (· ∈ meaningfulBytes)

/-- The byte at offset `p` of the text is kept when comments are removed, and then stands at offset `k`. -/
def Becomes (source : List UInt8) (p k : Nat) : Prop :=
  (∃ byte ∈ meaningfulBytes, source[p]? = some byte) ∧ (clean (source.take p)).length = k

/-- A token but for its position in the source. -/
def Token.shape (t : Token) : Symbol × Nat × Nat := (t.symbol, t.count, t.start)

/-! ### The symbols of a text without comments -/

theorem toByte_mem_meaningfulBytes (s : Symbol) : s.toByte ∈ meaningfulBytes := by
  cases s <;> decide

theorem ofByte?_eq_none {byte : UInt8} (h : byte ∉ meaningfulBytes) : Symbol.ofByte? byte = none := by
  cases found : Symbol.ofByte? byte with
  | none => rfl
  | some s =>
    rw [← Symbol.toByte_of_ofByte? found] at h
    exact absurd (toByte_mem_meaningfulBytes s) h

theorem exists_symbol {byte : UInt8} (h : byte ∈ meaningfulBytes) : ∃ s : Symbol, s.toByte = byte := by
  have all : meaningfulBytes = Symbol.all.map Symbol.toByte := rfl
  rw [all] at h
  obtain ⟨s, -, e⟩ := List.mem_map.1 h
  exact ⟨s, e⟩

theorem marksFrom_cons_symbol (n : Nat) (s : Symbol) (rest : List UInt8) :
    marksFrom n (s.toByte :: rest) = ⟨s, n⟩ :: marksFrom (n + 1) rest := by
  rw [marksFrom, Symbol.ofByte?_toByte]

theorem marksFrom_cons_comment (n : Nat) {byte : UInt8} (h : byte ∉ meaningfulBytes) (rest : List UInt8) :
    marksFrom n (byte :: rest) = marksFrom (n + 1) rest := by
  rw [marksFrom, ofByte?_eq_none h]

theorem clean_cons_symbol (s : Symbol) (rest : List UInt8) : clean (s.toByte :: rest) = s.toByte :: clean rest :=
  List.filter_cons_of_pos (by simpa using toByte_mem_meaningfulBytes s)

theorem clean_cons_comment {byte : UInt8} (h : byte ∉ meaningfulBytes) (rest : List UInt8) :
    clean (byte :: rest) = clean rest :=
  List.filter_cons_of_neg (by simpa using h)

theorem text_marksFrom (n : Nat) (source : List UInt8) :
    ((marksFrom n source).map fun m => m.symbol.toByte) = clean source := by
  induction source generalizing n with
  | nil => rfl
  | cons byte rest ih =>
    by_cases h : byte ∈ meaningfulBytes
    · obtain ⟨s, rfl⟩ := exists_symbol h
      rw [marksFrom_cons_symbol, clean_cons_symbol, List.map_cons, ih]
    · rw [marksFrom_cons_comment n h, clean_cons_comment h, ih]

/-- Without comments the symbols are numbered one after the other. -/
theorem marksFrom_clean (n k : Nat) (source : List UInt8) :
    marksFrom k (clean source) = (marksFrom n source).mapIdx fun i m => ⟨m.symbol, k + i⟩ := by
  induction source generalizing n k with
  | nil => rfl
  | cons byte rest ih =>
    by_cases h : byte ∈ meaningfulBytes
    · obtain ⟨s, rfl⟩ := exists_symbol h
      rw [clean_cons_symbol, marksFrom_cons_symbol, marksFrom_cons_symbol, List.mapIdx_cons, ih (n + 1)]
      simp only [Nat.add_zero, Nat.add_assoc, Nat.add_comm 1]
    · rw [marksFrom_cons_comment n h, clean_cons_comment h, ih]

/-- The symbol with number `k` stands where the byte stands that becomes byte `k`. -/
theorem getElem?_marksFrom {n k : Nat} {source : List UInt8} {m : Mark} (h : (marksFrom n source)[k]? = some m) :
    ∃ p, m.position = n + p ∧ Becomes source p k := by
  induction source generalizing n k with
  | nil => cases h
  | cons byte rest ih =>
    by_cases hb : byte ∈ meaningfulBytes
    · obtain ⟨s, rfl⟩ := exists_symbol hb
      rw [marksFrom_cons_symbol] at h
      cases k with
      | zero =>
        cases h
        exact ⟨0, rfl, ⟨s.toByte, hb, rfl⟩, rfl⟩
      | succ k =>
        obtain ⟨p, position, byte', before⟩ := ih h
        refine ⟨p + 1, by omega, byte', ?_⟩
        rw [List.take_succ_cons, clean_cons_symbol, List.length_cons, before]
    · rw [marksFrom_cons_comment n hb] at h
      obtain ⟨p, position, byte', before⟩ := ih h
      refine ⟨p + 1, by omega, byte', ?_⟩
      rw [List.take_succ_cons, clean_cons_comment hb, before]

/-- Where the byte of the text without comments comes from. -/
def origin (source : List UInt8) (k : Nat) : Nat := ((marks source)[k]?.map Mark.position).getD 0

theorem marks_clean (source : List UInt8) :
    marks source = (marks (clean source)).map (Mark.relocate (origin source)) := by
  rw [marks, marks, marksFrom_clean 0 0 source]
  apply List.ext_getElem?
  intro i
  rw [List.getElem?_map, List.getElem?_mapIdx]
  cases h : (marksFrom 0 source)[i]? with
  | none => rfl
  | some m => simp [Mark.relocate, origin, marks, h]

theorem becomes_origin {source : List UInt8} {k : Nat} (h : k ∈ (marks (clean source)).map Mark.position) :
    Becomes source (origin source k) k := by
  rw [marks, marksFrom_clean 0 0 source] at h
  obtain ⟨m, hm, rfl⟩ := List.mem_map.1 h
  obtain ⟨i, hi, rfl⟩ := List.mem_mapIdx.1 hm
  have here : (marks source)[i]? = some (marks source)[i] := List.getElem?_eq_getElem hi
  obtain ⟨p, position, becomes⟩ := getElem?_marksFrom here
  rw [Nat.zero_add] at position ⊢
  rw [origin, here, Option.map_some, Option.getD_some, position]
  exact becomes

/-! ### Tokens without comments -/

/-- The symbols stand one after the other, from position `n` on. -/
def Consecutive (n : Nat) : List Mark → Prop
  | [] => True
  | m :: rest => m.position = n ∧ Consecutive (n + 1) rest

theorem consecutive_clean (n : Nat) (source : List UInt8) : Consecutive n (marksFrom n (clean source)) := by
  induction source generalizing n with
  | nil => trivial
  | cons byte rest ih =>
    by_cases h : byte ∈ meaningfulBytes
    · obtain ⟨s, rfl⟩ := exists_symbol h
      rw [clean_cons_symbol, marksFrom_cons_symbol]
      exact ⟨rfl, ih (n + 1)⟩
    · rw [clean_cons_comment h]
      exact ih n

theorem position_of_consecutive (run : Token) {t : Token} {ms : List Mark} (here : run.position = run.start)
    (h : Consecutive run.stop ms) (ht : t ∈ tokensFrom run ms) : t.position = t.start := by
  induction ms generalizing run with
  | nil =>
    rw [tokensFrom, List.mem_singleton] at ht
    rw [ht]
    exact here
  | cons m ms ih =>
    obtain ⟨position, later⟩ := h
    unfold tokensFrom at ht
    split at ht
    · exact ih { run with count := run.count + 1 } here later ht
    · rcases List.mem_cons.1 ht with rfl | ht
      · exact here
      · exact ih ⟨m.symbol, 1, run.stop, m.position⟩ position later ht

theorem position_eq_start {source : List UInt8} {t : Token} (h : t ∈ tokensOf (marks (clean source))) :
    t.position = t.start := by
  have consecutive := consecutive_clean 0 source
  rw [← marks] at consecutive
  cases hm : marks (clean source) with
  | nil =>
    rw [hm] at h
    cases h
  | cons m ms =>
    rw [hm] at consecutive h
    exact position_of_consecutive ⟨m.symbol, 1, 0, m.position⟩ consecutive.1 consecutive.2 h

/-! ### A text with and without comments -/

/-- An accepted text is scanned to the same tokens and brackets as without comments, any other text fails in the same
way without them, and all translations are the same, or fail with the same error where the bytes correspond. -/
theorem comments_never_matter (source : List UInt8) :
    (∀ scan, Scan.ofSource source = .ok scan →
      scan.text = clean source ∧
      ∃ scan', Scan.ofSource (clean source) = .ok scan' ∧ scan'.text = clean source ∧
        scan'.tokens.map Token.shape = scan.tokens.map Token.shape ∧ (∀ i, scan'.partner? i = scan.partner? i) ∧
        ∀ t ∈ scan'.tokens, t.position = t.start) ∧
    (∀ e, Scan.ofSource source = .error e →
      ∃ e', Scan.ofSource (clean source) = .error e' ∧ e = e'.moveTo e.position) ∧
    ∀ o, (∃ p, Program.ofSource o source = .ok p ∧ Program.ofSource o (clean source) = .ok p) ∨
      ∃ e p, Program.ofSource o (clean source) = .error e ∧ Becomes source p e.position ∧
        Program.ofSource o source = .error (e.moveTo p) := by
  have scanned := Scan.ofSource_relocate (marks_clean source)
  refine ⟨?_, ?_, ?_⟩
  · intro scan accepted
    cases clear : Scan.ofSource (clean source) with
    | error e =>
      rw [accepted, clear] at scanned
      cases scanned
    | ok scan' =>
      rw [accepted, clear] at scanned
      obtain rfl : scan = scan'.relocate (origin source) := Except.ok.inj scanned
      have e : scan'.text = clean source := by
        rw [← text_marksFrom 0 source]
        exact congrArg Scan.text (Scan.eq_ofMarks accepted)
      refine ⟨e, scan', rfl, e, ?_, fun i => rfl, ?_⟩
      · rw [Scan.relocate, List.map_map]
        rfl
      · rw [Scan.eq_ofMarks clear]
        exact fun t ht => position_eq_start ht
  · intro e rejected
    cases clear : Scan.ofSource (clean source) with
    | ok scan' =>
      rw [rejected, clear] at scanned
      cases scanned
    | error e' =>
      rw [rejected, clear] at scanned
      obtain rfl : e = e'.relocate (origin source) := Except.error.inj scanned
      exact ⟨e', rfl, by rw [SourceError.relocate, SourceError.position_moveTo]⟩
  · intro o
    have translated := Program.ofSource_relocate o (marks_clean source)
    cases clear : Program.ofSource o (clean source) with
    | ok p =>
      rw [clear] at translated
      exact .inl ⟨p, translated, rfl⟩
    | error e =>
      rw [clear] at translated
      exact .inr ⟨e, origin source e.position, rfl, becomes_origin (position_of_error clear), translated⟩

end TapeLang
