import TapeLang.Proofs.Tokens
import TapeLang.Scan

/-!
# The scan of a text

The loop over the bytes of a text keeps four things at once.  Behind some symbols all of them can be told from these
symbols alone (`Scanner.Behind`): the text, the canonical tokens, and the brackets as a walk over the tokens pairs
them up.  So the scan of a text is decided by its brackets (`checkBrackets`), and where these are in order it is
`Scan.ofMarks` (`Scan.ofSource_eq`).

The table of pairs is filled out of order, an inner loop before the one around it.  What is filed for a `[` in the end
is the `]` that counting the brackets behind it leads to (`Pairing.lookup_walk`).
-/

namespace TapeLang

/-! ### Brackets -/

/-- Walks the brackets of a text; `opened` holds the positions of the loops still open, the innermost first. -/
def checkBrackets (opened : List Nat) : List Mark → Except SourceError Unit
  | [] =>
    match opened with
    | [] => .ok ()
    | p :: _ => .error (.unclosedLoop p)
  | m :: rest =>
    match m.symbol with
    | .opening =>
      if opened.length < maxNesting then checkBrackets (m.position :: opened) rest
      else .error (.nestedTooDeep m.position maxNesting)
    | .closing =>
      match opened with
      | [] => .error (.strayClose m.position)
      | _ :: outer => checkBrackets outer rest
    | _ => checkBrackets opened rest

/-- Brackets by their indices: those that wait for a partner, the innermost first, and the pairs. -/
structure Pairing where
  opened : List Nat
  matching : List (Nat × Nat)

namespace Pairing

def empty : Pairing := ⟨[], []⟩

/-- The symbol with index `i` comes next. -/
def next (p : Pairing) (i : Nat) : Symbol → Pairing
  | .opening => ⟨i :: p.opened, p.matching⟩
  | .closing =>
    match p.opened with
    | [] => p
    | j :: outer => ⟨outer, (j, i) :: p.matching⟩
  | _ => p

/-- Goes through symbols of which the first has index `i`. -/
def walk (p : Pairing) (i : Nat) : List Symbol → Pairing
  | [] => p
  | s :: rest => (p.next i s).walk (i + 1) rest

theorem walk_append (p : Pairing) (i : Nat) (l l' : List Symbol) :
    p.walk i (l ++ l') = (p.walk i l).walk (i + l.length) l' := by
  induction l generalizing p i with
  | nil => rfl
  | cons s l ih =>
    rw [List.cons_append, walk, walk, ih, List.length_cons, Nat.add_assoc, Nat.add_comm 1]

end Pairing

/-- The scan of symbols whose brackets are in order. -/
def Scan.ofMarks (ms : List Mark) : Scan :=
  ⟨ms.map fun m => m.symbol.toByte, tokensOf ms, (Pairing.empty.walk 0 ((tokensOf ms).map Token.symbol)).matching⟩

/-! ### The loop -/

namespace Scanner

variable {s : Scanner} {ms : List Mark} {symbol : Symbol} {positions outer : List Nat} {n i : Nat}

/-- What the loop has behind some symbols. -/
structure Behind (s : Scanner) (ms : List Mark) : Prop where
  text : s.text.toList = ms.map fun m => m.symbol.toByte
  tokens : s.tokens.toList = tokensOf ms
  paired : ⟨s.opened, s.matching⟩ = Pairing.empty.walk 0 ((tokensOf ms).map Token.symbol)

def positionAt? (s : Scanner) (i : Nat) : Option Nat := s.tokens[i]?.map Token.position

/-- The brackets that wait stand at these positions. -/
def Waits (s : Scanner) (positions : List Nat) : Prop := s.opened.map s.positionAt? = positions.map some

theorem behind_start : start.Behind [] := ⟨rfl, rfl, rfl⟩

theorem waits_start : start.Waits [] := rfl

theorem Waits.length_eq (h : s.Waits positions) : s.opened.length = positions.length := by
  simpa using congrArg List.length h

theorem Waits.of_kept {s' : Scanner} (h : s.Waits positions) (same : s'.opened = s.opened)
    (kept : ∀ i < s.tokens.size, s'.positionAt? i = s.positionAt? i) : s'.Waits positions := by
  rw [Waits, same, ← h]
  exact List.map_congr_left fun i hi => kept i (s.opened_lt i hi)

/-! #### A symbol that the last token takes in -/

theorem positionAt?_grow (byte : UInt8) (i : Nat) : (s.grow byte).positionAt? i = s.positionAt? i := by
  simp only [positionAt?, grow, Array.getElem?_modify]
  split
  · rw [Option.map_map]
    rfl
  · rfl

theorem symbols_modify (ts : List Token) (i : Nat) :
    (ts.modify i fun t => { t with count := t.count + 1 }).map Token.symbol = ts.map Token.symbol := by
  induction ts generalizing i with
  | nil => cases i <;> rfl
  | cons t ts ih =>
    cases i with
    | zero => rfl
    | succ i => rw [List.modify_succ_cons, List.map_cons, List.map_cons, ih]

theorem Behind.grow (h : s.Behind ms) (absorbs : s.tokens.back?.any fun last => last.Absorbs symbol) :
    (s.grow symbol.toByte).Behind (ms ++ [⟨symbol, n⟩]) := by
  rw [← Array.getLast?_toList, h.tokens] at absorbs
  have tokens := (tokensOf_concat ms ⟨symbol, n⟩).trans (if_pos absorbs)
  refine ⟨?_, ?_, ?_⟩
  · simp [Scanner.grow, h.text]
  · rw [tokens, ← h.tokens]
    simp [Scanner.grow]
  · rw [tokens, symbols_modify]
    exact h.paired

/-! #### A symbol that begins a token -/

theorem positionAt?_push (position : Nat) (byte : UInt8) (inside : i < s.tokens.size) :
    (s.push symbol position byte).positionAt? i = s.positionAt? i := by
  rw [positionAt?, push, Array.getElem?_push_lt inside]
  simp [positionAt?, inside]

theorem positionAt?_push_size (position : Nat) (byte : UInt8) :
    (s.push symbol position byte).positionAt? s.tokens.size = some position := by
  simp [positionAt?, push]

section

variable (h : s.Behind ms) (alone : ¬ s.tokens.back?.any fun last => last.Absorbs symbol)
include h alone

theorem Behind.tokens_concat : tokensOf (ms ++ [⟨symbol, n⟩]) = tokensOf ms ++ [⟨symbol, 1, ms.length, n⟩] := by
  rw [← Array.getLast?_toList, h.tokens] at alone
  exact (tokensOf_concat ms ⟨symbol, n⟩).trans (if_neg alone)

/-- The state has one token more, and the brackets paired with it. -/
theorem Behind.concat {s' : Scanner} (text : s'.text = s.text.push symbol.toByte)
    (tokens : s'.tokens = s.tokens.push ⟨symbol, 1, s.text.size, n⟩)
    (paired : (⟨s'.opened, s'.matching⟩ : Pairing) = Pairing.next ⟨s.opened, s.matching⟩ s.tokens.size symbol) :
    s'.Behind (ms ++ [⟨symbol, n⟩]) := by
  have size : s.tokens.size = ((tokensOf ms).map Token.symbol).length := by
    rw [List.length_map, ← h.tokens, Array.length_toList]
  have length : s.text.size = ms.length := by
    rw [← Array.length_toList, h.text, List.length_map]
  refine ⟨?_, ?_, ?_⟩
  · simp [text, h.text]
  · rw [h.tokens_concat alone, tokens, Array.toList_push, h.tokens, length]
  · rw [h.tokens_concat alone, paired, h.paired, size, List.map_append, Pairing.walk_append, Nat.zero_add]
    rfl

end

/-! #### One byte, and all of them -/

theorem isRun_of_absorbs (h : s.tokens.back?.any fun last => last.Absorbs symbol) : symbol.isRun = true := by
  cases last : s.tokens.back? with
  | none =>
    rw [last] at h
    cases h
  | some last =>
    rw [last, Option.any_some, decide_eq_true_eq] at h
    exact h.2.1

/-- What a step over one symbol comes to: the symbol is added to those behind, or it is the error that the brackets
alone give. -/
def Adds (ms : List Mark) (positions : List Nat) (m : Mark) : Except SourceError Scanner → Prop
  | .ok s' => s'.Behind (ms ++ [m]) ∧ ∃ positions', s'.Waits positions' ∧
      ∀ later, checkBrackets positions (m :: later) = checkBrackets positions' later
  | .error e => ∀ later, checkBrackets positions (m :: later) = .error e

section

variable (h : s.Behind ms) (w : s.Waits positions)
include h w

theorem Behind.enter (alone : ¬ s.tokens.back?.any fun last => last.Absorbs .opening) :
    Adds ms positions ⟨.opening, n⟩ (s.enter n Symbol.opening.toByte) := by
  have check (later : List Mark) : checkBrackets positions (⟨.opening, n⟩ :: later)
      = if s.opened.length < maxNesting then checkBrackets (n :: positions) later
        else .error (.nestedTooDeep n maxNesting) := by
    rw [w.length_eq]
    rfl
  unfold Scanner.enter
  split
  · next room =>
    refine ⟨h.concat alone rfl rfl rfl, n :: positions, ?_, fun later => (check later).trans (if_pos room)⟩
    have waits : (s.push .opening n Symbol.opening.toByte).Waits positions :=
      w.of_kept rfl fun i inside => positionAt?_push n _ inside
    exact congrArg₂ List.cons (positionAt?_push_size n Symbol.opening.toByte) waits
  · next full => exact fun later => (check later).trans (if_neg full)

theorem Behind.leave (alone : ¬ s.tokens.back?.any fun last => last.Absorbs .closing) :
    Adds ms positions ⟨.closing, n⟩ (s.leave n Symbol.closing.toByte) := by
  unfold Scanner.leave
  split
  · next waiting =>
    rw [Waits, waiting] at w
    obtain rfl : positions = [] := List.map_eq_nil_iff.1 w.symm
    exact fun later => rfl
  · next i outer waiting =>
    rw [Waits, waiting] at w
    obtain ⟨p, positions', rfl, -, outside⟩ := List.map_eq_cons_iff.1 w.symm
    refine ⟨h.concat alone rfl rfl ?_, positions', ?_, fun later => rfl⟩
    · simp only [Pairing.next, waiting]
    · rw [Waits, outside]
      refine List.map_congr_left fun j hj => positionAt?_push n Symbol.closing.toByte (s.opened_lt j ?_)
      rw [waiting]
      exact List.mem_cons_of_mem i hj

theorem Behind.step (symbol : Symbol) (n : Nat) : Adds ms positions ⟨symbol, n⟩ (s.step n symbol.toByte) := by
  simp only [Scanner.step, Symbol.ofByte?_toByte]
  split
  · next absorbs =>
    refine ⟨h.grow absorbs, positions, w.of_kept rfl fun i _ => positionAt?_grow _ i, fun later => ?_⟩
    have run := isRun_of_absorbs absorbs
    cases symbol with
    | opening | closing => cases run
    | _ => rfl
  · next alone =>
    have kept : (s.push symbol n symbol.toByte).Waits positions :=
      w.of_kept rfl fun i inside => positionAt?_push n _ inside
    cases symbol with
    | opening => exact h.enter w alone
    | closing => exact h.leave w alone
    | _ => exact ⟨h.concat alone rfl rfl rfl, positions, kept, fun later => rfl⟩

/-- Behind the last byte. -/
theorem Behind.finish : s.finish = (checkBrackets positions []).map fun _ => Scan.ofMarks ms := by
  unfold Scanner.finish
  split
  · next waiting =>
    have paired := h.paired
    rw [Waits, waiting] at w
    rw [waiting] at paired
    obtain rfl : positions = [] := List.map_eq_nil_iff.1 w.symm
    rw [checkBrackets, Except.map, Scan.ofMarks, h.text, h.tokens, ← paired]
  · next i outer waiting =>
    have inside : i < s.tokens.size := s.opened_lt i (by simp [waiting])
    rw [Waits, waiting] at w
    obtain ⟨p, positions', rfl, here, -⟩ := List.map_eq_cons_iff.1 w.symm
    rw [positionAt?, Array.getElem?_eq_getElem inside] at here
    rw [checkBrackets, Except.map, Option.some.inj here]

/-- From any state on, the scan comes to what the brackets say, and to the closed form. -/
theorem Behind.run (source : List UInt8) (n : Nat) :
    (s.run n source).bind Scanner.finish
      = (checkBrackets positions (marksFrom n source)).map fun _ => Scan.ofMarks (ms ++ marksFrom n source) := by
  induction source generalizing s ms positions n with
  | nil =>
    rw [marksFrom, List.append_nil]
    exact h.finish w
  | cons byte rest ih =>
    rw [Scanner.run, marksFrom]
    cases found : Symbol.ofByte? byte with
    | none =>
      rw [Scanner.step, found]
      exact ih h w (n + 1)
    | some symbol =>
      obtain rfl := Symbol.toByte_of_ofByte? found
      have adds := h.step w symbol n
      cases next : s.step n symbol.toByte with
      | ok s' =>
        rw [next] at adds
        obtain ⟨behind, positions', waits, check⟩ := adds
        simp only [check]
        rw [ih behind waits (n + 1), List.append_assoc]
        rfl
      | error e =>
        rw [next] at adds
        exact congrArg (Except.map _) (adds _).symm

end

end Scanner

theorem Scan.ofSource_eq (source : List UInt8) :
    Scan.ofSource source = (checkBrackets [] (marks source)).map fun _ => Scan.ofMarks (marks source) :=
  Scanner.behind_start.run Scanner.waits_start source 0

/-! ### The table -/

namespace Scan

/-- Index of the `]` that closes a loop inside which `depth` further loops are open, the first token having
index `i`. -/
def closingFrom (depth i : Nat) : List Token → Option Nat
  | [] => none
  | t :: rest =>
    match t.symbol with
    | .opening => closingFrom (depth + 1) (i + 1) rest
    | .closing =>
      match depth with
      | 0 => some i
      | outer + 1 => closingFrom outer (i + 1) rest
    | _ => closingFrom depth (i + 1) rest

/-- The `]` that belongs to the `[` at token index `i`, found by counting brackets. -/
def closer? (ts : List Token) (i : Nat) : Option Nat :=
  match ts.drop i with
  | ⟨.opening, _, _, _⟩ :: rest => closingFrom 0 (i + 1) rest
  | _ => none

end Scan

namespace Pairing

open Scan (closingFrom closer?)

variable {p : Pairing} {i k d : Nat}

/-- The indices before `i` are used: those that wait are different ones, and nothing is filed for them or from
`i` on. -/
structure Used (p : Pairing) (i : Nat) : Prop where
  distinct : p.opened.Nodup
  below : ∀ k ∈ p.opened, k < i
  unfiled : ∀ k, k ∈ p.opened ∨ i ≤ k → p.matching.lookup k = none

theorem used_empty : empty.Used 0 := ⟨List.nodup_nil, nofun, fun _ _ => rfl⟩

theorem lookup_cons_ne {table : List (Nat × Nat)} {j : Nat} (ne : k ≠ j) :
    ((j, i) :: table).lookup k = table.lookup k := by
  rw [List.lookup_cons, beq_false_of_ne ne]

theorem Used.next (h : p.Used i) (s : Symbol) : (p.next i s).Used (i + 1) := by
  have later : p.Used (i + 1) :=
    ⟨h.distinct, fun k hk => Nat.lt_succ_of_lt (h.below k hk),
      fun k hk => h.unfiled k (hk.imp_right Nat.le_of_succ_le)⟩
  cases s with
  | opening =>
    refine ⟨List.nodup_cons.2 ⟨fun hi => Nat.lt_irrefl i (h.below i hi), h.distinct⟩, ?_, ?_⟩
    · exact List.forall_mem_cons.2 ⟨Nat.lt_succ_self i, later.below⟩
    · rintro k (hk | hk)
      · rcases List.mem_cons.1 hk with rfl | hk
        · exact h.unfiled k (.inr (Nat.le_refl k))
        · exact h.unfiled k (.inl hk)
      · exact later.unfiled k (.inr hk)
  | closing =>
    rcases p with ⟨_ | ⟨j, outer⟩, table⟩
    · exact later
    · obtain ⟨fresh, distinct⟩ := List.nodup_cons.1 h.distinct
      have hj : j < i := h.below j (by simp)
      refine ⟨distinct, fun k hk => later.below k (List.mem_cons_of_mem j hk), ?_⟩
      rintro k (hk | hk)
      · exact (lookup_cons_ne (by rintro rfl; exact fresh hk)).trans (h.unfiled k (.inl (List.mem_cons_of_mem j hk)))
      · exact (lookup_cons_ne (by omega)).trans (later.unfiled k (.inr hk))
  | _ => exact later

/-- What does not wait any more is left as it is. -/
theorem lookup_walk_of_settled {l : List Symbol} (below : k < i) (settled : k ∉ p.opened) :
    (p.walk i l).matching.lookup k = p.matching.lookup k := by
  induction l generalizing p i with
  | nil => rfl
  | cons s l ih =>
    have step : k ∉ (p.next i s).opened ∧ (p.next i s).matching.lookup k = p.matching.lookup k := by
      cases s with
      | opening =>
        refine ⟨fun hk => ?_, rfl⟩
        rcases List.mem_cons.1 hk with rfl | hk
        · exact Nat.lt_irrefl k below
        · exact settled hk
      | closing =>
        rcases p with ⟨_ | ⟨j, outer⟩, table⟩
        · exact ⟨settled, rfl⟩
        · rw [List.mem_cons, not_or] at settled
          exact ⟨settled.2, lookup_cons_ne settled.1⟩
      | _ => exact ⟨settled, rfl⟩
    rw [walk, ih (Nat.lt_succ_of_lt below) step.1, step.2]

/-- What waits with `d` others before it is filed at the `]` that closes it. -/
theorem lookup_walk_of_opened {ts : List Token} (used : p.Used i) (waiting : p.opened[d]? = some k) :
    (p.walk i (ts.map Token.symbol)).matching.lookup k = closingFrom d i ts := by
  induction ts generalizing p i d with
  | nil => exact used.unfiled k (.inl (List.mem_of_getElem? waiting))
  | cons t ts ih =>
    have later := used.next (i := i) t.symbol
    rcases t with ⟨symbol, count, start, position⟩
    cases symbol with
    | opening => exact ih (d := d + 1) later waiting
    | closing =>
      rcases p with ⟨_ | ⟨j, outer⟩, table⟩
      · cases waiting
      · cases d with
        | zero =>
          obtain rfl : j = k := Option.some.inj waiting
          have filed := lookup_walk_of_settled (l := ts.map Token.symbol) (p := ⟨outer, (j, i) :: table⟩)
            (Nat.lt_succ_of_lt (used.below j (by simp))) (List.nodup_cons.1 used.distinct).1
          exact filed.trans List.lookup_cons_self
        | succ d => exact ih (d := d) later waiting
    | _ => exact ih (d := d) later waiting

theorem Used.walk (h : p.Used i) (l : List Symbol) : (p.walk i l).Used (i + l.length) := by
  induction l generalizing p i with
  | nil => exact h
  | cons s l ih =>
    rw [List.length_cons, Nat.add_comm l.length, ← Nat.add_assoc]
    exact ih (h.next s)

/-- Nothing is filed under a token that is no `[`. -/
theorem Used.lookup_next (h : p.Used i) {s : Symbol} (ho : s ≠ .opening) :
    i ∉ (p.next i s).opened ∧ (p.next i s).matching.lookup i = none := by
  have here : i ∉ p.opened ∧ p.matching.lookup i = none :=
    ⟨fun hi => Nat.lt_irrefl i (h.below i hi), h.unfiled i (.inr (Nat.le_refl i))⟩
  cases s with
  | opening => exact absurd rfl ho
  | closing =>
    rcases p with ⟨_ | ⟨j, outer⟩, table⟩
    · exact here
    · rw [List.mem_cons, not_or] at here
      exact ⟨here.1.2, (lookup_cons_ne here.1.1).trans here.2⟩
  | _ => exact here

/-- Every `[` is filed with the `]` that is found by counting. -/
theorem lookup_walk (ts : List Token) (k : Nat) :
    (empty.walk 0 (ts.map Token.symbol)).matching.lookup k = closer? ts k := by
  have before := used_empty.walk ((ts.take k).map Token.symbol)
  have split : empty.walk 0 (ts.map Token.symbol) = (empty.walk 0 ((ts.take k).map Token.symbol)).walk
      (0 + ((ts.take k).map Token.symbol).length) ((ts.drop k).map Token.symbol) := by
    rw [← walk_append, ← List.map_append, List.take_append_drop]
  rw [split, closer?]
  cases behind : ts.drop k with
  | nil =>
    have short : ts.length ≤ k := List.drop_eq_nil_iff.1 behind
    exact before.unfiled k (.inr (by rw [List.length_map, List.length_take]; omega))
  | cons t rest =>
    have index : 0 + ((ts.take k).map Token.symbol).length = k := by
      have := congrArg List.length behind
      rw [List.length_drop, List.length_cons] at this
      rw [List.length_map, List.length_take]
      omega
    rw [index] at before ⊢
    rcases t with ⟨symbol, count, start, position⟩
    by_cases ho : symbol = .opening
    · subst ho
      exact lookup_walk_of_opened (d := 0) (before.next .opening) rfl
    · obtain ⟨settled, none⟩ := before.lookup_next ho
      have filed := lookup_walk_of_settled (l := rest.map Token.symbol) (Nat.lt_succ_self k) settled
      rw [List.map_cons, Pairing.walk, filed, none]
      split
      · next e =>
        cases e
        exact absurd rfl ho
      · rfl

end Pairing

theorem Scan.partner?_ofMarks (ms : List Mark) (i : Nat) :
    (Scan.ofMarks ms).partner? i = closer? (tokensOf ms) i := Pairing.lookup_walk (tokensOf ms) i

end TapeLang
