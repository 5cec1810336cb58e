import TapeLang.Proofs.Lowered
import TapeLang.Proofs.Rejection

/-!
# Translated programs are well formed

In what a text is translated to, no operand is out of range or makes its instruction do nothing, and no loop that only
adds and moves could be put in a better order (`Instruction.Proper`).  It is nested no deeper than the brackets of the
text and has at most as many instructions as the text has tokens (`translation_is_well_formed`).

Instructions come from four places: single tokens, the catalogue, closed forms of summaries, and canonical bodies.
Each place has its lemma, and `Scan.Has.proper` puts them together along the outline.
-/

namespace TapeLang

open LoopSummary

/-- Targets are other cells than the counter.  Weights are given for at least one cell, in the order of the cells, and
only where there is no simpler form. -/
def ClosedForm.Proper : ClosedForm → Prop
  | transferAdd target | transferSub target => target ≠ 0
  | weighted entries =>
    entries ≠ [] ∧ Deltas.Ascending entries ∧ (∀ entry ∈ entries, entry.1 ≠ 0 ∧ entry.2 ≠ 0) ∧
      (entries.length = 1 → ∀ entry ∈ entries, entry.2 ≠ 1 ∧ entry.2 ≠ -1)
  | clear | multiply | exponent | divide => True

namespace Program

/-- All adds that stand directly in the program are made under the cursor. -/
def AddsHere (p : Program) : Prop := ∀ delta offset, .add delta offset ∈ p → offset = 0

/-- Adds in the order of the cells, then at most one move. -/
def Ordered (p : Program) : Prop :=
  ∃ (ds : Deltas) (last : Program), ds.Ascending ∧ p = ds.map (fun entry => .add entry.2 entry.1) ++ last ∧
    (last = [] ∨ ∃ amount, last = [.move amount])

end Program

/-- The instruction adds or moves, and nothing else. -/
def Instruction.IsStraight (i : Instruction) : Prop :=
  (∃ delta offset, i = .add delta offset) ∨ ∃ amount, i = .move amount

/-- The body is the canonical one of a loop of the text that has a summary. -/
def Scan.Classifies (s : Scan) (body : Program) : Prop :=
  ∃ i j summary, s.partner? i = some j ∧ ofBody ((s.tokens.take j).drop (i + 1)) = .ok summary ∧
    body = summary.canonicalBody

/-- An instruction as it may stand anywhere in what a text is translated to. -/
def Instruction.Proper (o : Optimizations) (s : Scan) : Instruction → Prop
  | .move amount => amount ≠ 0 ∧ -255 ≤ amount.toInt ∧ amount.toInt ≤ 255
  | .add delta _ => delta ≠ 0
  | .print | .read => True
  | .seek step => step ≠ 0 ∧ -128 ≤ step.toInt ∧ step.toInt ≤ 127
  | .closed form => form.Proper
  | .loop body =>
    (Program.AddsHere body ∨ o.closedForms = true ∧ s.Classifies body) ∧
      (o.closedForms = true → (∀ i ∈ body, i.IsStraight) → Program.Ordered body)
  | .block body => body = [.move 1, .closed (.transferSub (-1)), .move (-1)]

/-- What is translated from a text with the given scan. -/
structure Program.WellFormed (o : Optimizations) (source : List UInt8) (s : Scan) (p : Program) : Prop where
  proper : ∀ i ∈ Program.preorder p, i.Proper o s
  /-- Outside of loops there are no offsets. -/
  addsHere : p.AddsHere
  nested : ∃ k, (Program.depth p : Int) ≤ Brackets.depth source k
  shallow : Program.depth p ≤ 256
  short : Program.size p ≤ s.tokens.length

variable {o : Optimizations} {s : Scan} {i : Instruction} {p : Program}

/-! ### Tokens -/

theorem proper_move {amount : Int32} {n : Int} (value : amount.toInt = n) (nonzero : n ≠ 0) (lower : -255 ≤ n)
    (upper : n ≤ 255) : (Instruction.move amount).Proper o s := by
  refine ⟨?_, by omega, by omega⟩
  rintro rfl
  exact nonzero value.symm

theorem Token.Valid.proper_instruction {t : Token} (valid : t.Valid) (ho : t.symbol ≠ .opening)
    (hc : t.symbol ≠ .closing) : t.instruction.Proper o s := by
  obtain ⟨there, back⟩ := toInt_count valid.small
  have pos := valid.pos
  have small : t.count ≤ 255 := valid.small
  have change : Int8.ofNat t.count ≠ 0 := by
    intro zero
    have bmod : (t.count : Int).bmod 256 = 0 := Int8.toInt_ofNat'.symm.trans (congrArg Int8.toInt zero)
    have := Int.dvd_of_bmod_eq_zero bmod
    omega
  rcases t with ⟨symbol, count, start, position⟩
  simp only at there back pos small
  cases symbol with
  | right => exact proper_move there (by omega) (by omega) (by omega)
  | left => exact proper_move back (by omega) (by omega) (by omega)
  | inc => exact change
  | dec => exact Int8.neg_ne_zero.2 change
  | put | get => trivial
  | opening => exact absurd rfl ho
  | closing => exact absurd rfl hc

/-! ### Summaries -/

theorem deltas_of_ofBody {body : List Token} {summary : LoopSummary} (h : ofBody body = .ok summary) :
    summary.deltas.Ascending ∧ ∀ entry ∈ summary.deltas, entry.2 ≠ 0 := by
  obtain ⟨-, -, rfl⟩ := ofBody_eq_ok h
  refine ⟨ascending_ofPass body, fun entry mem => ?_⟩
  have changes := (List.mem_filter.1 mem).2
  simpa using changes

theorem proper_transfer {entries : List (Int8 × Int8)} (ascending : Deltas.Ascending entries)
    (entry : ∀ entry ∈ entries, entry.1 ≠ 0 ∧ entry.2 ≠ 0) : (transfer entries).Proper := by
  unfold transfer
  split
  · trivial
  · next target weight =>
    obtain ⟨away, -⟩ := entry (target, weight) (by simp)
    split
    · exact away
    · next notOne =>
      split
      · exact away
      · next notMinus => exact ⟨by simp, ascending, entry, fun _ => by simpa using ⟨notOne, notMinus⟩⟩
  · next nonempty many =>
    refine ⟨nonempty, ascending, entry, fun one => ?_⟩
    obtain ⟨⟨target, weight⟩, rfl⟩ := List.length_eq_one_iff.1 one
    exact (many target weight rfl).elim

theorem entries_entriesPerUnit {summary : LoopSummary} {sign : Int8} (unit : sign = 1 ∨ sign = -1)
    (ascending : summary.deltas.Ascending) (changes : ∀ entry ∈ summary.deltas, entry.2 ≠ 0) :
    Deltas.Ascending (summary.entriesPerUnit sign) ∧
      ∀ entry ∈ summary.entriesPerUnit sign, entry.1 ≠ 0 ∧ entry.2 ≠ 0 := by
  constructor
  · exact List.pairwise_map.2 (ascending.filter _)
  · intro entry mem
    obtain ⟨⟨offset, delta⟩, kept, rfl⟩ := List.mem_map.1 mem
    obtain ⟨mem, away⟩ := List.mem_filter.1 kept
    have change : delta ≠ 0 := changes _ mem
    refine ⟨by simpa using away, ?_⟩
    rcases unit with rfl | rfl
    · simpa using change
    · rw [Int8.mul_neg, Int8.mul_one]
      exact Int8.neg_ne_zero.2 change

theorem proper_closedForm {body : List Token} {summary : LoopSummary} (h : ofBody body = .ok summary)
    (closed : summary.closedForm? = some i) : i.Proper o s := by
  obtain ⟨ascending, changes⟩ := deltas_of_ofBody h
  rcases closedForm?_eq_some closed with ⟨sign, unit, rfl⟩ | ⟨moves, rfl⟩
  · obtain ⟨ascending, entry⟩ := entries_entriesPerUnit unit ascending changes
    exact proper_transfer ascending entry
  · have value := Int8.toInt_toInt32 summary.displacement
    have lower := summary.displacement.le_toInt
    have upper := summary.displacement.toInt_lt
    refine ⟨?_, by omega, by omega⟩
    intro zero
    rw [zero] at value
    exact moves (Int8.toInt.inj value.symm)

theorem proper_of_mem_canonicalBody {body : List Token} {summary : LoopSummary} (h : ofBody body = .ok summary)
    (mem : i ∈ summary.canonicalBody) : i.Proper o s := by
  rcases List.mem_append.1 mem with mem | mem
  · obtain ⟨entry, kept, rfl⟩ := List.mem_map.1 mem
    exact (deltas_of_ofBody h).2 entry kept
  · split at mem
    · cases mem
    · next moves =>
      cases List.mem_singleton.1 mem
      have lower := summary.displacement.le_toInt
      have upper := summary.displacement.toInt_lt
      refine proper_move (Int8.toInt_toInt32 _) ?_ (by omega) (by omega)
      exact fun zero => moves (Int8.toInt.inj zero)

theorem ordered_canonicalBody {body : List Token} {summary : LoopSummary} (h : ofBody body = .ok summary) :
    Program.Ordered summary.canonicalBody := by
  refine ⟨summary.deltas, _, (deltas_of_ofBody h).1, rfl, ?_⟩
  split
  · exact .inl rfl
  · exact .inr ⟨_, rfl⟩

/-! ### The catalogue -/

theorem proper_of_mem_loopBodies : ∀ entry ∈ Idiom.loopBodies, entry.2.Proper := by
  have neighbour : (1 : Int8) ≠ 0 ∧ (-1 : Int8) ≠ 0 := by decide
  have copy : (ClosedForm.weighted [(1, 1), (2, 1)]).Proper := by
    refine @proper_transfer [(1, 1), (2, 1)] ?_ ?_
    · exact List.pairwise_pair.2 (by decide)
    · simp
  simp only [Idiom.loopBodies, Idiom.transferBodies, List.map, List.cons_append, List.nil_append,
    List.forall_mem_cons]
  exact ⟨trivial, trivial, neighbour.1, neighbour.1, neighbour.2, neighbour.2, neighbour.1, neighbour.1, neighbour.2,
    neighbour.2, copy, trivial, trivial, trivial, nofun⟩

theorem proper_idiom {text : List UInt8} {form : ClosedForm} (h : Idiom.ofLoopBody? text = some form) :
    form.Proper := by
  obtain ⟨entry, found, rfl⟩ := Option.map_eq_some_iff.1 h
  exact proper_of_mem_loopBodies entry (List.mem_of_find?_eq_some found)

/-! ### Whole outlines -/

theorem forall_mem_preorder_cons {P : Instruction → Prop} (first : ∀ j ∈ i.preorder, P j)
    (later : ∀ j ∈ Program.preorder p, P j) : ∀ j ∈ Program.preorder (i :: p), P j := by
  rw [Program.preorder]
  exact List.forall_mem_append.2 ⟨first, later⟩

theorem forall_mem_preorder_of_body? {P : Instruction → Prop} (flat : i.body? = none) (h : P i) :
    ∀ j ∈ i.preorder, P j := by
  rw [(Instruction.flat_of_body? flat).1]
  exact List.forall_mem_singleton.2 h

namespace Outline

variable {x body rest : Outline} {opening closing : Token} {k : Nat}

theorem not_isStraight_of_verdict (h : verdict o body = .replaced i) : ¬ i.IsStraight := by
  rcases verdict_eq_replaced h with ⟨form, rfl, -⟩ | ⟨summary, -, -, closed | rfl⟩
  · simp [Instruction.IsStraight]
  · rcases closedForm?_eq_some closed with ⟨sign, -, rfl⟩ | ⟨-, rfl⟩
    · simp [Instruction.IsStraight]
    · simp [Instruction.IsStraight]
  · simp [Instruction.IsStraight]

theorem Lowers.addsHere (h : x.Lowers o p) : p.AddsHere := by
  induction h with
  | done => nofun
  | @token t rest p _ ih =>
    intro delta offset mem
    rcases List.mem_cons.1 mem with here | mem
    · rcases t with ⟨symbol, count, start, position⟩
      cases symbol <;> cases here <;> rfl
    · exact ih delta offset mem
  | subtraction _ _ _ ih =>
    intro delta offset mem
    exact ih delta offset (by simpa using mem)
  | replaced verdict _ ih =>
    intro delta offset mem
    rcases List.mem_cons.1 mem with rfl | mem
    · exact absurd (.inl ⟨delta, offset, rfl⟩) (not_isStraight_of_verdict verdict)
    · exact ih delta offset mem
  | kept _ _ _ _ ih =>
    intro delta offset mem
    exact ih delta offset (by simpa using mem)

/-- Where there are only adds and moves in the program, there are only adds and moves in the outline. -/
theorem Lowers.isRun (h : x.Lowers o p) (formed : x.Formed) (straight : ∀ i ∈ p, i.IsStraight) :
    ∀ t ∈ x.tokens, t.symbol.isRun = true := by
  induction h with
  | done => nofun
  | @token t rest p _ ih =>
    obtain ⟨here, later⟩ := List.forall_mem_cons.1 straight
    refine List.forall_mem_cons.2 ⟨?_, ih formed.2.2 later⟩
    rcases t with ⟨symbol, count, start, position⟩
    cases symbol with
    | put | get => simp [Instruction.IsStraight, Token.instruction] at here
    | opening => exact absurd rfl formed.1
    | closing => exact absurd rfl formed.2.1
    | _ => rfl
  | subtraction _ _ _ _ =>
    have := straight _ List.mem_cons_self
    simp [Instruction.IsStraight] at this
  | replaced verdict _ _ => exact absurd (straight _ List.mem_cons_self) (not_isStraight_of_verdict verdict)
  | kept _ _ _ _ _ =>
    have := straight _ List.mem_cons_self
    simp [Instruction.IsStraight] at this

end Outline

namespace Scan

variable {x body rest : Outline} {opening closing : Token} {k : Nat}

theorem Has.classifies {summary : LoopSummary} (h : s.Has k (.loop opening closing body rest))
    (classified : ofBody body.tokens = .ok summary) : s.Classifies summary.canonicalBody := by
  refine ⟨k, _, summary, h.partner?, ?_, rfl⟩
  obtain ⟨-, -, before, after, split, rfl⟩ := h
  rw [Outline.tokens, List.cons_append, List.append_assoc] at split
  rw [inside_eq split]
  exact classified

/-- Whatever replaces a loop. -/
theorem Has.proper_of_verdict (h : s.Has k (.loop opening closing body rest))
    (verdict : Outline.verdict o body = .replaced i) : ∀ j ∈ i.preorder, j.Proper o s := by
  rcases Outline.verdict_eq_replaced verdict with ⟨form, rfl, -, found⟩ | ⟨summary, closed, classified, form | rfl⟩
  · exact forall_mem_preorder_of_body? rfl (proper_idiom found)
  · exact forall_mem_preorder_of_body? (body?_of_closedForm? form) (proper_closedForm classified form)
  · rw [Instruction.preorder, (Program.flat_of_body? fun _ => body?_of_mem_canonicalBody).1]
    refine List.forall_mem_cons.2 ⟨⟨.inr ⟨closed, h.classifies classified⟩, ?_⟩, ?_⟩
    · exact fun _ _ => ordered_canonicalBody classified
    · exact fun j mem => proper_of_mem_canonicalBody classified mem

/-- All instructions of the program are proper. -/
theorem Has.proper (h : s.Has k x) (lowers : x.Lowers o p) : ∀ j ∈ Program.preorder p, j.Proper o s := by
  induction lowers generalizing k with
  | done => nofun
  | token _ ih =>
    obtain ⟨ho, hc, -⟩ := h.regular.formed
    refine forall_mem_preorder_cons ?_ (ih h.token.2)
    exact forall_mem_preorder_of_body? (Token.body?_instruction ho hc) (h.regular.token.1.proper_instruction ho hc)
  | subtraction _ _ _ ih =>
    refine forall_mem_preorder_cons ?_ (ih h.token.2.past.token.2)
    have inside : Program.preorder Idiom.subtractionProgram = Idiom.subtractionProgram := rfl
    rw [Instruction.preorder, inside]
    refine List.forall_mem_cons.2 ⟨rfl, ?_⟩
    simp [Idiom.subtractionProgram, Instruction.Proper, ClosedForm.Proper]
  | replaced verdict _ ih => exact forall_mem_preorder_cons (h.proper_of_verdict verdict) (ih h.past)
  | kept verdict inner _ ihBody ihRest =>
    refine forall_mem_preorder_cons ?_ (ihRest h.past)
    rw [Instruction.preorder]
    refine List.forall_mem_cons.2 ⟨⟨.inl inner.addsHere, ?_⟩, ihBody h.inside⟩
    -- the loop is kept for a symbol that gives an instruction which neither adds nor moves
    intro closed straight
    obtain ⟨t, mem, effect⟩ := Outline.effect_of_verdict_eq_kept verdict closed
    rw [inner.isRun h.inside.regular.formed straight t mem] at effect
    cases effect

end Scan

/-! ### Depth -/

namespace Brackets

variable {source : List UInt8}

theorem symbols_marksFrom (start : Nat) (source : List UInt8) :
    (marksFrom start source).map Mark.symbol = source.filterMap Symbol.ofByte? := by
  induction source generalizing start with
  | nil => rfl
  | cons byte rest ih =>
    rw [marksFrom, List.filterMap_cons]
    cases Symbol.ofByte? byte with
    | none => exact ih _
    | some symbol => exact congrArg _ (ih _)

theorem count_symbol (symbol : Symbol) (source : List UInt8) :
    (source.filterMap Symbol.ofByte?).count symbol = source.count symbol.toByte := by
  rw [List.count, List.countP_filterMap, List.count]
  refine List.countP_congr fun byte _ => ?_
  cases here : Symbol.ofByte? byte with
  | none =>
    have other : byte ≠ symbol.toByte := by
      rintro rfl
      rw [Symbol.ofByte?_toByte] at here
      cases here
    simpa using other
  | some found =>
    have same : found = symbol ↔ found.toByte = symbol.toByte := ⟨congrArg _, Symbol.toByte_injective⟩
    simpa [Symbol.toByte_of_ofByte? here] using same

/-- How many more loops the symbols open than they close. -/
def balance (symbols : List Symbol) : Int := symbols.count .opening - symbols.count .closing

theorem balance_append (l l' : List Symbol) : balance (l ++ l') = balance l + balance l' := by
  simp only [balance, List.count_append]
  omega

theorem balance_opening (l : List Symbol) : balance (.opening :: l) = balance l + 1 := by
  simp [balance]
  omega

theorem balance_closing (l : List Symbol) : balance (.closing :: l) = balance l - 1 := by
  simp [balance]
  omega

/-- The balance of the first symbols of a text is the depth somewhere in the text. -/
theorem exists_depth_eq_balance {l : List Symbol} (h : l <+: (marks source).map Mark.symbol) :
    ∃ k, depth source k = balance l := by
  obtain ⟨later, split⟩ := h
  rw [marks, symbols_marksFrom, eq_comm, List.filterMap_eq_append_iff] at split
  obtain ⟨first, last, rfl, rfl, -⟩ := split
  refine ⟨first.length, ?_⟩
  rw [depth, List.take_left, balance, count_symbol, count_symbol]
  rfl

/-- Without an offence the depth stays within bounds. -/
theorem depth_le_of_clean (clean : ∀ k, ¬ Offence source k) (k : Nat) : depth source k ≤ 256 := by
  induction k with
  | zero => simp [depth]
  | succ k ih =>
    cases here : source[k]? with
    | none =>
      rw [depth, List.take_of_length_le (Nat.le_succ_of_le (List.getElem?_eq_none_iff.1 here))]
      rwa [depth, List.take_of_length_le (List.getElem?_eq_none_iff.1 here)] at ih
    | some byte =>
      have notFull : byte = opening → depth source k ≠ 256 := by
        rintro rfl full
        exact clean k (.inr ⟨here, full⟩)
      rw [depth_succ here]
      split
      · next opens =>
        have := notFull opens
        split <;> omega
      · split <;> omega

end Brackets

namespace Outline

open Brackets (balance balance_append balance_opening balance_closing)

variable {x : Outline}

theorem balance_spell {t : Token} (ho : t.symbol ≠ .opening) (hc : t.symbol ≠ .closing) : balance t.spell = 0 := by
  simp [balance, Token.spell, List.count_replicate, ho, hc]

/-- All loops of an outline are closed again. -/
theorem balance_symbols (h : x.Regular) : balance x.symbols = 0 := by
  induction x with
  | done => rfl
  | token t rest ih =>
    rw [symbols_token, balance_append, balance_spell h.formed.1 h.formed.2.1, ih h.token.2]
    rfl
  | loop opening closing body rest ihBody ihRest =>
    rw [symbols_loop h, balance_opening, balance_append, balance_closing, ihBody h.body, ihRest h.rest]
    rfl

/-- Somewhere in its text an outline is as deep as its loops are nested. -/
theorem exists_depth_le_balance (h : x.Regular) : ∃ l, l <+: x.symbols ∧ (x.depth : Int) ≤ balance l := by
  induction x with
  | done => exact ⟨[], List.nil_prefix, Int.le_refl 0⟩
  | token t rest ih =>
    obtain ⟨l, part, deep⟩ := ih h.token.2
    refine ⟨t.spell ++ l, (List.prefix_append_right_inj _).2 part, ?_⟩
    rw [balance_append, balance_spell h.formed.1 h.formed.2.1, Int.zero_add]
    exact deep
  | loop opening closing body rest ihBody ihRest =>
    obtain ⟨inner, partInner, deepInner⟩ := ihBody h.body
    obtain ⟨later, partLater, deepLater⟩ := ihRest h.rest
    rw [symbols_loop h, depth]
    -- the deepest place is in the body, or behind the loop, where the depth is what it was before
    rcases Nat.le_total rest.depth (body.depth + 1) with inside | behind
    · refine ⟨.opening :: inner, ?_, ?_⟩
      · exact (List.prefix_cons_inj _).2 (partInner.trans (List.prefix_append ..))
      · rw [balance_opening]
        omega
    · refine ⟨.opening :: (body.symbols ++ .closing :: later), ?_, ?_⟩
      · exact (List.prefix_cons_inj _).2 ((List.prefix_append_right_inj _).2 ((List.prefix_cons_inj _).2 partLater))
      · rw [balance_opening, balance_append, balance_closing, balance_symbols h.body]
        omega

end Outline

/-- Everything in a translated program is proper, the program is nested at most as deep as the brackets of the text,
and it has at most as many instructions as the text has tokens. -/
theorem translation_is_well_formed {o : Optimizations} {source : List UInt8} {p : Program}
    (h : Program.ofSource o source = .ok p) :
    ∃ scan, Scan.ofSource source = .ok scan ∧ p.WellFormed o source scan := by
  obtain ⟨brackets, lowered⟩ := Program.ofSource_eq_ok_iff.1 h
  obtain ⟨scan, accepted⟩ := Brackets.scan_eq_ok_iff.2 brackets
  obtain ⟨has, tokens⟩ := has_ofSource accepted
  have lowers := Outline.lowers_of_lower lowered
  have deep := lowers.depth_le has.regular.formed
  obtain ⟨l, part, nested⟩ := Outline.exists_depth_le_balance has.regular
  have symbols : (Outline.ofSource source).symbols = (marks source).map Mark.symbol := by
    rw [Outline.symbols, Outline.tokens_ofSource brackets, spell_tokensOf]
  rw [symbols] at part
  obtain ⟨k, depth⟩ := Brackets.exists_depth_eq_balance part
  have shallow := Brackets.depth_le_of_clean (Brackets.judged_iff.1 brackets).1 k
  refine ⟨scan, accepted, has.proper lowers, lowers.addsHere, ⟨k, by omega⟩, by omega, ?_⟩
  rw [← tokens]
  exact lowers.size_le

/-- `[,>[-<->]<[>+++>-<]]` -/
private def readAndDrift : List UInt8 :=
  Idiom.spelling (.opening :: .get :: Idiom.subtraction
    ++ [.opening, .right, .inc, .inc, .inc, .right, .dec, .left, .closing, .closing])

/-- A loop that is kept, around a block and a loop with a canonical body. -/
theorem translation_is_well_formed_drift :
    Program.ofSource .all readAndDrift
        = .ok [.loop [.read, .block Idiom.subtractionProgram, .loop [.add 3 1, .add (-1) 2, .move 1]]] ∧
      ∃ scan, Scan.ofSource readAndDrift = .ok scan ∧
        Program.WellFormed .all readAndDrift scan
          [.loop [.read, .block Idiom.subtractionProgram, .loop [.add 3 1, .add (-1) 2, .move 1]]] :=
  ⟨rfl, translation_is_well_formed rfl⟩

end TapeLang
