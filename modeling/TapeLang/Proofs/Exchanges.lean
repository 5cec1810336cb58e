import TapeLang.Proofs.Comments
import TapeLang.Proofs.Language
import TapeLang.Proofs.Lowered

/-!
# Input and output keep their places

Whatever lowering replaces, it never loses, repeats or reorders input and output: read in the order in which it is
written, a translated program prints and reads where the text has `.` and `,` (`translation_keeps_exchanges`).  The
two ways to replace a part of the text are the catalogue, which has no fragment with input or output, and the summary
of a body, which only exists if there is none (`exchanges_of_verdict`).
-/

namespace TapeLang

open LoopSummary

/-- The bytes that ask for output and input. -/
def exchangeBytes : List UInt8 := ['.', ','].map Char.toUInt8

/-- The output and input that a text asks for, in order. -/
def exchanges (text : List UInt8) : List UInt8 := text.filter (· ∈ exchangeBytes)

/-- What the instruction asks for, if it is output or input. -/
def Instruction.exchange? : Instruction → Option UInt8
  | .print => some '.'.toUInt8
  | .read => some ','.toUInt8
  | _ => none

/-- The output and input that a program asks for, in the order in which it is written. -/
def Program.exchanges (p : Program) : List UInt8 := (Program.preorder p).filterMap Instruction.exchange?

namespace Program

theorem exchanges_cons (i : Instruction) (p : Program) :
    exchanges (i :: p) = i.preorder.filterMap Instruction.exchange? ++ exchanges p := by
  rw [exchanges, preorder, List.filterMap_append, exchanges]

theorem exchanges_loop (body : Program) :
    (Instruction.loop body).preorder.filterMap Instruction.exchange? = exchanges body := by
  rw [Instruction.preorder, List.filterMap_cons_none rfl, exchanges]

end Program

/-! ### The exchanges of a text -/

theorem exchanges_append (s t : List UInt8) : exchanges (s ++ t) = exchanges s ++ exchanges t := List.filter_append ..

theorem exchanges_symbols_of_isRun {symbols : List Symbol} (h : ∀ s ∈ symbols, s.isRun = true) :
    exchanges (symbols.map Symbol.toByte) = [] := by
  refine List.filter_eq_nil_iff.2 (List.forall_mem_map.2 fun s mem => ?_)
  have run := h s mem
  cases s with
  | put | get | opening | closing => cases run
  | _ => decide

/-- Comments ask for nothing. -/
theorem exchanges_clean (source : List UInt8) : exchanges (clean source) = exchanges source := by
  have symbols : exchangeBytes = [Symbol.put, Symbol.get].map Symbol.toByte := rfl
  have meaningful (byte : UInt8) (mem : byte ∈ exchangeBytes) : byte ∈ meaningfulBytes := by
    rw [symbols] at mem
    obtain ⟨s, -, rfl⟩ := List.mem_map.1 mem
    exact toByte_mem_meaningfulBytes s
  rw [exchanges, clean, List.filter_filter, exchanges]
  refine List.filter_congr fun byte _ => ?_
  have := meaningful byte
  by_cases here : byte ∈ exchangeBytes
  · simp [here, this here]
  · simp [here]

/-- A token asks for what its instruction asks for. -/
theorem exchanges_token {t : Token} (valid : t.Valid) (ho : t.symbol ≠ .opening) (hc : t.symbol ≠ .closing) :
    t.instruction.preorder.filterMap Instruction.exchange? = exchanges (t.spell.map Symbol.toByte) := by
  rw [(Instruction.flat_of_body? (Token.body?_instruction ho hc)).1]
  by_cases run : t.symbol.isRun = true
  · have all : ∀ s ∈ t.spell, s.isRun = true := fun s mem => List.eq_of_mem_replicate mem ▸ run
    rw [exchanges_symbols_of_isRun all]
    rcases t with ⟨symbol, count, start, position⟩
    cases symbol with
    | put | get | opening | closing => cases run
    | _ => rfl
  · rw [Token.spell_of_not_isRun valid (by simpa using run)]
    rcases t with ⟨symbol, count, start, position⟩
    cases symbol with
    | put | get => rfl
    | opening => exact absurd rfl ho
    | closing => exact absurd rfl hc
    | _ => exact absurd rfl run

namespace Outline

variable {o : Optimizations} {x body rest : Outline} {opening closing : Token} {p : Program} {i : Instruction}

theorem exchanges_text_token (t : Token) (rest : Outline) :
    exchanges (token t rest).text = exchanges (t.spell.map Symbol.toByte) ++ exchanges rest.text := by
  have text : (token t rest).text = t.spell.map Symbol.toByte ++ rest.text := List.map_append
  rw [text, exchanges_append]

theorem exchanges_loop (h : (loop opening closing body rest).Regular) :
    exchanges (loop opening closing body rest).text = exchanges body.text ++ exchanges rest.text := by
  have text : (loop opening closing body rest).text
      = [Symbol.opening.toByte] ++ body.text ++ [Symbol.closing.toByte] ++ rest.text := by
    have symbols := congrArg (List.map Symbol.toByte) (symbols_loop h)
    simpa [Outline.symbols, Outline.text] using symbols
  have brackets : exchanges [Symbol.opening.toByte] = [] ∧ exchanges [Symbol.closing.toByte] = [] := by decide
  simp only [text, exchanges_append, brackets, List.nil_append, List.append_nil]

/-! ### What is replaced -/

theorem exchanges_loopBodies : ∀ entry ∈ Idiom.loopBodies, exchanges (Idiom.spelling entry.1) = [] := by
  decide

theorem exchanges_of_isRun (run : ∀ t ∈ body.tokens, t.symbol.isRun = true) : exchanges body.text = [] := by
  refine exchanges_symbols_of_isRun fun symbol mem => ?_
  obtain ⟨t, mem, spelled⟩ := List.mem_flatMap.1 mem
  rw [List.eq_of_mem_replicate spelled]
  exact run t mem

/-- A canonical body only adds and moves. -/
theorem exchanges_canonicalBody (s : LoopSummary) : Program.exchanges s.canonicalBody = [] := by
  rw [Program.exchanges, (Program.flat_of_body? fun _ => body?_of_mem_canonicalBody).1]
  refine List.filterMap_eq_nil_iff.2 fun i mem => ?_
  rcases List.mem_append.1 mem with mem | mem
  · obtain ⟨entry, -, rfl⟩ := List.mem_map.1 mem
    rfl
  · split at mem
    · cases mem
    · cases List.mem_singleton.1 mem
      rfl

/-- A loop that is replaced has no input or output in it, and nor has what replaces it. -/
theorem exchanges_of_verdict (h : verdict o body = .replaced i) :
    i.preorder.filterMap Instruction.exchange? = [] ∧ exchanges body.text = [] := by
  rcases verdict_eq_replaced h with ⟨form, rfl, -, found⟩ | ⟨s, -, summary, closed | rfl⟩
  · obtain ⟨entry, found, -⟩ := Option.map_eq_some_iff.1 found
    have text : Idiom.spelling entry.1 = body.text := by simpa using List.find?_some found
    exact ⟨rfl, text ▸ exchanges_loopBodies entry (List.mem_of_find?_eq_some found)⟩
  · refine ⟨?_, exchanges_of_isRun (ofBody_eq_ok summary).1⟩
    rcases closedForm?_eq_some closed with ⟨sign, -, rfl⟩ | ⟨-, rfl⟩
    · rfl
    · rfl
  · exact ⟨(Program.exchanges_loop _).trans (exchanges_canonicalBody s), exchanges_of_isRun (ofBody_eq_ok summary).1⟩

/-- Lowering keeps what the text asks for: a token and a loop that is kept give it once, and everything else that is
put into the program has nothing of it. -/
theorem Lowers.exchanges_eq (h : x.Lowers o p) (regular : x.Regular) : Program.exchanges p = exchanges x.text := by
  induction h with
  | done => rfl
  | @token t rest p _ ih =>
    obtain ⟨valid, later⟩ := regular.token
    rw [Program.exchanges_cons, exchanges_text_token, ih later,
      exchanges_token valid regular.formed.1 regular.formed.2.1]
  | @subtraction before opening closing after body rest p _ idiom _ ih =>
    obtain ⟨right, inside, left⟩ := idiom
    have later := regular.token.2.rest.token.2
    have fragment : exchanges (Idiom.spelling Idiom.subtractionBody) = [] := by decide
    rw [exchanges_text_token, exchanges_loop regular.token.2, exchanges_text_token, right, left, inside, fragment,
      Program.exchanges_cons, ih later]
    rfl
  | replaced verdict _ ih =>
    obtain ⟨instruction, text⟩ := exchanges_of_verdict verdict
    rw [Program.exchanges_cons, instruction, exchanges_loop regular, text, ih regular.rest]
  | kept _ _ _ ihBody ihRest =>
    rw [Program.exchanges_cons, Program.exchanges_loop, exchanges_loop regular, ihBody regular.body,
      ihRest regular.rest]

end Outline

/-- The prints and reads of a translated program are the `.` and `,` of the text, in order. -/
theorem translation_keeps_exchanges {o : Optimizations} {source : List UInt8} {p : Program}
    (h : Program.ofSource o source = .ok p) :
    (Program.preorder p).filterMap Instruction.exchange?
      = source.filter fun byte => byte = '.'.toUInt8 ∨ byte = ','.toUInt8 := by
  obtain ⟨brackets, lowered⟩ := Program.ofSource_eq_ok_iff.1 h
  have kept := (Outline.lowers_of_lower lowered).exchanges_eq (Outline.regular_ofSource brackets)
  have text : (Outline.ofSource source).text = clean source := by
    rw [Outline.text, Outline.tokens_ofSource brackets, spell_tokensOf, List.map_map]
    exact text_marksFrom 0 source
  rw [text, exchanges_clean] at kept
  rw [← Program.exchanges, kept, exchanges]
  simp [exchangeBytes]

/-- `a,[.>[-<->]<[->+<]] .` -/
private def echoAndSubtract : List UInt8 :=
  'a'.toUInt8 :: Idiom.spelling (.get :: .opening :: .put :: Idiom.subtraction
    ++ [.opening, .dec, .right, .inc, .left, .closing, .closing]) ++ [' '.toUInt8, '.'.toUInt8]

/-- A fragment and a loop are replaced between what is read and what is printed. -/
theorem translation_keeps_exchanges_echo :
    Program.ofSource .all echoAndSubtract
        = .ok [.read, .loop [.print, .block Idiom.subtractionProgram, .closed (.transferAdd 1)], .print] ∧
      (Program.preorder
          [.read, .loop [.print, .block Idiom.subtractionProgram, .closed (.transferAdd 1)], .print]).filterMap
          Instruction.exchange?
        = echoAndSubtract.filter fun byte => byte = '.'.toUInt8 ∨ byte = ','.toUInt8 :=
  ⟨rfl, translation_keeps_exchanges (o := .all) rfl⟩

end TapeLang
