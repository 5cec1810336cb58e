import Mathlib.Data.List.Chain
import TapeLang.Token

/-!
# Canonical tokens

`tokensOf` is the run-length encoding of some symbols: neighbouring moves or adds of one kind are merged.  Spelling
the tokens out gives back the symbols (`spell_tokensOf`), and one more symbol either grows the last token or begins a
new one (`tokensOf_concat`).

The list is canonical: every token holds as many symbols as it may hold, and none that is not full could take in the
symbol after it (`tokensOf_canonical`).  A canonical list can be told from the symbols it spells (`Canonical.unique`).
-/

namespace TapeLang

/-- The tokens of `run` followed by the given symbols, where `run` may still grow. -/
def tokensFrom (run : Token) : List Mark → List Token
  | [] => [run]
  | m :: rest =>
    if run.Absorbs m.symbol then
      tokensFrom { run with count := run.count + 1 } rest
    else
      run :: tokensFrom ⟨m.symbol, 1, run.stop, m.position⟩ rest

def tokensOf : List Mark → List Token
  | [] => []
  | m :: rest => tokensFrom ⟨m.symbol, 1, 0, m.position⟩ rest

theorem spell_tokensFrom (run : Token) (ms : List Mark) :
    (tokensFrom run ms).flatMap Token.spell = run.spell ++ ms.map Mark.symbol := by
  induction ms generalizing run with
  | nil => simp [tokensFrom]
  | cons m rest ih =>
    unfold tokensFrom
    split
    · next h =>
      rw [ih]
      simp [Token.spell, List.replicate_succ', h.1]
    · rw [List.flatMap_cons, ih]
      simp [Token.spell]

theorem spell_tokensOf (ms : List Mark) : (tokensOf ms).flatMap Token.spell = ms.map Mark.symbol := by
  cases ms with
  | nil => rfl
  | cons m rest => simp [tokensOf, spell_tokensFrom, Token.spell]

theorem tokensFrom_concat (run : Token) (ms : List Mark) (m : Mark) :
    ∃ front last, tokensFrom run ms = front ++ [last] ∧ tokensFrom run (ms ++ [m])
      = if last.Absorbs m.symbol then front ++ [{ last with count := last.count + 1 }]
        else front ++ [last] ++ [⟨m.symbol, 1, run.stop + ms.length, m.position⟩] := by
  induction ms generalizing run with
  | nil =>
    refine ⟨[], run, rfl, ?_⟩
    rw [List.nil_append, tokensFrom]
    split <;> rfl
  | cons k ms ih =>
    rw [List.cons_append, tokensFrom, tokensFrom, List.length_cons]
    split
    · have stop : run.stop + (ms.length + 1) = run.stop + 1 + ms.length := by omega
      obtain ⟨front, last, before, behind⟩ := ih { run with count := run.count + 1 }
      exact ⟨front, last, before, stop ▸ behind⟩
    · have stop : run.stop + (ms.length + 1) = run.stop + 1 + ms.length := by omega
      obtain ⟨front, last, before, behind⟩ := ih ⟨k.symbol, 1, run.stop, k.position⟩
      refine ⟨run :: front, last, by rw [before]; rfl, ?_⟩
      rw [behind, stop]
      split <;> rfl

theorem modify_last {α : Type} (front : List α) (last : α) (f : α → α) :
    (front ++ [last]).modify ((front ++ [last]).length - 1) f = front ++ [f last] := by
  rw [List.modify_eq_take_cons_drop (by simp)]
  simp

/-- One more symbol. -/
theorem tokensOf_concat (ms : List Mark) (m : Mark) :
    tokensOf (ms ++ [m])
      = if (tokensOf ms).getLast?.any fun last => last.Absorbs m.symbol then
          (tokensOf ms).modify ((tokensOf ms).length - 1) fun last => { last with count := last.count + 1 }
        else tokensOf ms ++ [⟨m.symbol, 1, ms.length, m.position⟩] := by
  cases ms with
  | nil => rfl
  | cons k ms =>
    obtain ⟨front, last, before, behind⟩ := tokensFrom_concat ⟨k.symbol, 1, 0, k.position⟩ ms m
    have stop : (k :: ms).length = (⟨k.symbol, 1, 0, k.position⟩ : Token).stop + ms.length :=
      (Nat.add_comm ms.length 1).trans rfl
    rw [List.cons_append, tokensOf, tokensOf, behind, before, modify_last, List.getLast?_concat, stop]
    simp

/-! ### Canonical lists -/

namespace Token

/-- The count is one that the symbol allows. -/
structure Valid (k : Token) : Prop where
  pos : 0 < k.count
  small : k.count ≤ maxRun
  single : k.symbol.isRun = false → k.count = 1

/-- The token without the place at which it stands. -/
def bare (k : Token) : Token := ⟨k.symbol, k.count, 0, 0⟩

@[simp] theorem spell_bare (k : Token) : k.bare.spell = k.spell := rfl

theorem spell_of_not_isRun {k : Token} (h : k.Valid) (hs : k.symbol.isRun = false) : k.spell = [k.symbol] := by
  rw [spell, h.single hs]
  rfl

theorem single_of_spell {k : Token} {s : Symbol} (h : k.spell = [s]) : k.symbol = s ∧ k.count = 1 := by
  have count := congrArg List.length h
  rw [spell, List.length_replicate] at count
  rw [spell, count] at h
  exact ⟨List.head_eq_of_cons_eq h, count⟩

end Token

/-- Neighbours could not be merged any further, and every count is allowed. -/
structure Canonical (ts : List Token) : Prop where
  valid : ∀ k ∈ ts, k.Valid
  full : ts.IsChain fun k l => ¬ k.Absorbs l.symbol

theorem Canonical.part {ts us : List Token} (h : Canonical us) (hi : ts <:+: us) : Canonical ts :=
  ⟨fun k hk => h.valid k (hi.subset hk), h.full.infix hi⟩

theorem single_valid (symbol : Symbol) (start position : Nat) : Token.Valid ⟨symbol, 1, start, position⟩ := by
  have h : 1 ≤ maxRun := by decide
  exact ⟨Nat.one_pos, h, fun _ => rfl⟩

private theorem tokensFrom_head (run : Token) (ms : List Mark) :
    ∃ k rest, tokensFrom run ms = k :: rest ∧ k.symbol = run.symbol := by
  induction ms generalizing run with
  | nil => exact ⟨run, [], rfl, rfl⟩
  | cons m ms ih =>
    unfold tokensFrom
    split
    · exact ih _
    · exact ⟨run, _, rfl, rfl⟩

theorem tokensFrom_canonical {run : Token} (h : run.Valid) (ms : List Mark) :
    Canonical (tokensFrom run ms) := by
  induction ms generalizing run with
  | nil => exact ⟨by simpa [tokensFrom] using h, List.isChain_singleton _⟩
  | cons m ms ih =>
    unfold tokensFrom
    split
    · next absorbs =>
      obtain ⟨same, isRun, room⟩ := absorbs
      refine ih ⟨Nat.succ_pos _, room, ?_⟩
      intro hs
      rw [← same] at isRun
      exact absurd (isRun.symm.trans hs) (by decide)
    · next absorbs =>
      have later : Canonical (tokensFrom ⟨m.symbol, 1, run.stop, m.position⟩ ms) :=
        ih (single_valid ..)
      obtain ⟨k, rest, hk, hs⟩ := tokensFrom_head ⟨m.symbol, 1, run.stop, m.position⟩ ms
      rw [hk] at later ⊢
      constructor
      · intro l hl
        rcases List.mem_cons.1 hl with rfl | hl
        · exact h
        · exact later.valid l hl
      · refine .cons_cons ?_ later.full
        rw [hs]
        exact absorbs

theorem tokensOf_canonical (ms : List Mark) : Canonical (tokensOf ms) := by
  cases ms with
  | nil => exact ⟨by simp [tokensOf], .nil⟩
  | cons m ms => exact tokensFrom_canonical (single_valid ..) ms

/-! ### Uniqueness -/

private theorem spell_cons {k : Token} (h : 0 < k.count) : ∃ rest, k.spell = k.symbol :: rest := by
  obtain ⟨n, hn⟩ := Nat.exists_eq_succ_of_ne_zero (Nat.ne_of_gt h)
  exact ⟨List.replicate n k.symbol, by rw [Token.spell, hn, List.replicate_succ]⟩

/-- The first token of a canonical list takes in all it can, so no other token starts the same text with more. -/
private theorem count_le_of_spell {k l : Token} {ts us : List Token} (hk : Canonical (k :: ts)) (hl : l.Valid)
    (same : k.symbol = l.symbol) (h : (k :: ts).flatMap Token.spell = (l :: us).flatMap Token.spell) :
    l.count ≤ k.count := by
  rcases Nat.lt_or_ge k.count l.count with hlt | hge
  · obtain ⟨n, hn⟩ := Nat.exists_eq_add_of_lt hlt
    -- what stands after `k` starts with its symbol again
    have h' : ts.flatMap Token.spell = l.symbol :: (List.replicate n l.symbol ++ us.flatMap Token.spell) := by
      rw [List.flatMap_cons, List.flatMap_cons, Token.spell, Token.spell, hn, same, Nat.add_assoc,
        List.replicate_add, List.append_assoc, List.append_cancel_left_eq, List.replicate_succ] at h
      exact h
    cases ts with
    | nil => cases h'
    | cons k' ts =>
      obtain ⟨rest, hrest⟩ := spell_cons (hk.valid k' (by simp)).pos
      rw [List.flatMap_cons, hrest, List.cons_append, List.cons.injEq] at h'
      have absorbs : ¬ k.Absorbs k'.symbol := (List.isChain_cons_cons.1 hk.full).1
      rw [h'.1] at absorbs
      -- `k` does not absorb the symbol, so it is full or the symbol stands alone
      have hk' := (hk.valid k (by simp)).pos
      cases isRun : l.symbol.isRun with
      | false =>
        have := hl.single isRun
        omega
      | true =>
        have : ¬ k.count < maxRun := fun room => absorbs ⟨same, isRun, room⟩
        have := hl.small
        omega
  · exact hge

/-- Canonical lists that spell the same symbols are the same, but for the places of their tokens. -/
theorem Canonical.unique {ts us : List Token} (ht : Canonical ts) (hu : Canonical us)
    (h : ts.flatMap Token.spell = us.flatMap Token.spell) : ts.map Token.bare = us.map Token.bare := by
  induction ts generalizing us with
  | nil =>
    cases us with
    | nil => rfl
    | cons l us =>
      obtain ⟨rest, hrest⟩ := spell_cons (hu.valid l (by simp)).pos
      rw [List.flatMap_cons, hrest] at h
      cases h
  | cons k ts ih =>
    obtain ⟨restk, hk⟩ := spell_cons (ht.valid k (by simp)).pos
    cases us with
    | nil =>
      rw [List.flatMap_cons, hk] at h
      cases h
    | cons l us =>
      obtain ⟨restl, hl⟩ := spell_cons (hu.valid l (by simp)).pos
      have same : k.symbol = l.symbol := by
        rw [List.flatMap_cons, List.flatMap_cons, hk, hl] at h
        exact (List.cons.inj h).1
      have count : k.count = l.count :=
        Nat.le_antisymm (count_le_of_spell hu (ht.valid k (by simp)) same.symm h.symm)
          (count_le_of_spell ht (hu.valid l (by simp)) same h)
      have bare : k.bare = l.bare := by rw [Token.bare, Token.bare, same, count]
      rw [List.flatMap_cons, List.flatMap_cons, ← k.spell_bare, ← l.spell_bare, bare,
        List.append_cancel_left_eq] at h
      rw [List.map_cons, List.map_cons, bare,
        ih (ht.part (List.suffix_cons k ts).isInfix) (hu.part (List.suffix_cons l us).isInfix) h]

end TapeLang
