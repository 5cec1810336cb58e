import TapeLang.Lowering
import TapeLang.Proofs.Passes
import TapeLang.Proofs.Runs
import TapeLang.Proofs.Tape

/-!
# Bodies that only move and add

One pass over a body without loops, input and output moves the cursor and adds a constant to each cell.  The summary
of the body says which (`runs_walk`), so the body and its canonical form agree wherever the moves of the body stay on
the tape (`agree_canonicalBody`).
-/

namespace TapeLang

namespace Tape

/-- Adds `weight * k` to the cell at each of the offsets. -/
def addAll (t : Tape) (entries : List (Int8 × Int8)) (k : UInt8) : Tape :=
  entries.foldl (fun t entry => t.add entry.1.toInt (entry.2.toUInt8 * k)) t

theorem transfer_eq (t : Tape) (entries : List (Int8 × Int8)) :
    t.transfer entries = (t.addAll entries t.current).setCurrent 0 := rfl

variable {entries : List (Int8 × Int8)} {k : UInt8}

@[simp] theorem addAll_nil (t : Tape) (k : UInt8) : t.addAll [] k = t := rfl

@[simp] theorem addAll_cons (t : Tape) (e : Int8 × Int8) (es : List (Int8 × Int8)) (k : UInt8) :
    t.addAll (e :: es) k = (t.add e.1.toInt (e.2.toUInt8 * k)).addAll es k := rfl

@[simp] theorem cursor_addAll (t : Tape) (es : List (Int8 × Int8)) (k : UInt8) :
    (t.addAll es k).cursor = t.cursor := by
  induction es generalizing t with
  | nil => rfl
  | cons e es ih => rw [addAll_cons, ih, cursor_add]

theorem addAll_add (t : Tape) (es : List (Int8 × Int8)) (k : UInt8) (o : Int) (d : UInt8) :
    (t.add o d).addAll es k = (t.addAll es k).add o d := by
  induction es generalizing t with
  | nil => rfl
  | cons e es ih => rw [addAll_cons, addAll_cons, add_comm, ih]

/-- Adding twice with the same weights is adding once with the sum of the factors. -/
theorem addAll_addAll (t : Tape) (es : List (Int8 × Int8)) (k l : UInt8) :
    (t.addAll es k).addAll es l = t.addAll es (k + l) := by
  induction es generalizing t with
  | nil => rfl
  | cons e es ih =>
    have h : e.2.toUInt8 * k + e.2.toUInt8 * l = e.2.toUInt8 * (k + l) := by grind
    rw [addAll_cons, addAll_cons, addAll_cons, ← addAll_add, add_add, ih, h]

theorem addAll_zero (t : Tape) (es : List (Int8 × Int8)) : t.addAll es 0 = t := by
  induction es generalizing t with
  | nil => rfl
  | cons e es ih => rw [addAll_cons, UInt8.mul_zero, add_zero, ih]

theorem addAll_bump (t : Tape) (o a : Int8) (ds : Deltas) :
    t.addAll (ds.bump o a) 1 = (t.addAll ds 1).add o.toInt a.toUInt8 := by
  induction ds generalizing t with
  | nil => rw [Deltas.bump, addAll_cons, UInt8.mul_one, addAll_nil, addAll_nil]
  | cons e ds ih =>
    unfold Deltas.bump
    split
    · rw [addAll_cons, UInt8.mul_one, addAll_add]
    · split
      · next h =>
        subst h
        have h : (e.2 + a).toUInt8 * 1 = e.2.toUInt8 * 1 + a.toUInt8 := by
          rw [UInt8.mul_one, UInt8.mul_one]
          rfl
        rw [addAll_cons, addAll_cons, h, ← add_add, addAll_add]
      · rw [addAll_cons, addAll_cons, ih]

theorem addAll_filter (t : Tape) (ds : Deltas) (k : UInt8) :
    t.addAll (ds.filter fun e => e.2 != 0) k = t.addAll ds k := by
  induction ds generalizing t with
  | nil => rfl
  | cons e ds ih =>
    by_cases h : e.2 = 0
    · rw [List.filter_cons_of_neg (by simp [h]), ih, addAll_cons, h]
      have h0 : (0 : Int8).toUInt8 * k = 0 := UInt8.zero_mul
      rw [h0, add_zero]
    · rw [List.filter_cons_of_pos (by simp [h]), addAll_cons, addAll_cons, ih]

end Tape

open Program LoopSummary

/-- Every move, made in turn from the given place, ends on the tape. -/
def StaysFrom (place : Int) : List Token → Prop
  | [] => True
  | t :: rest => OnTape (place + shift t) ∧ StaysFrom (place + shift t) rest

/-! ### Tokens as effects -/

theorem toInt_count {n : Nat} (h : n ≤ maxRun) :
    (Int32.ofNat n).toInt = n ∧ (-Int32.ofNat n).toInt = -n := by
  unfold maxRun at h
  have h₁ : (Int32.ofNat n).toInt = n := Int32.toInt_ofNat_of_lt (by omega)
  refine ⟨h₁, ?_⟩
  rw [Int32.toInt_neg, h₁]
  exact Int.bmod_eq_of_le (by omega) (by omega)

theorem natAbs_shift_le (k : Token) : (shift k).natAbs ≤ k.count := by
  unfold shift
  split <;> omega

/-- A token of a run moves the cursor and adds to the cell it comes to; one of the two is nothing. -/
theorem runs_token_iff {k : Token} (run : k.symbol.isRun = true) (small : (shift k).natAbs ≤ maxRun) {rest : Program}
    {a b : Setting} :
    Runs (k.instruction :: rest) a b
      ↔ Runs rest ⟨(a.tape.move (shift k)).add 0 (change k).toUInt8, a.streams⟩ b := by
  rcases k with ⟨symbol, count, start, position⟩
  cases symbol with
  | right =>
    have small : count ≤ maxRun := small
    have e : (a.tape.move count).add 0 0 = a.tape.move count := Tape.add_zero ..
    rw [runs_plain_iff rfl, (toInt_count small).1, ← e]
    rfl
  | left =>
    have small : count ≤ maxRun := by
      rwa [shift, Int.natAbs_neg] at small
    have e : (a.tape.move (-count)).add 0 0 = a.tape.move (-count) := Tape.add_zero ..
    rw [runs_plain_iff rfl, (toInt_count small).2, ← e]
    rfl
  | inc | dec =>
    rw [runs_plain_iff rfl]
    show Runs rest ⟨a.tape.add 0 _, _⟩ b ↔ Runs rest ⟨(a.tape.move 0).add 0 _, _⟩ b
    rw [Tape.move_zero]
    rfl
  | _ => cases run

/-! ### One pass -/

theorem fitsByte_zero : FitsByte 0 := ⟨by decide, by decide⟩

theorem toInt_ofInt {c : Int} (h : FitsByte c) : (Int8.ofInt c).toInt = c := by
  obtain ⟨h₁, h₂⟩ := h
  exact Int8.toInt_ofInt_of_le (by omega) (by omega)

/-- One token of the walk: the cursor moves, and the change is made where it comes to. -/
theorem walk_cons {c : Int} (near : FitsByte c) (ds : Deltas) (k : Token) (ts : List Token) :
    ∃ ds', walk c ds (k :: ts) = walk (c + shift k) ds' ts ∧
      ∀ t : Tape, t.addAll ds' 1 = (t.addAll ds 1).add (c + shift k) (change k).toUInt8 := by
  have adds (h : shift k = 0) (t : Tape) :
      t.addAll (ds.bump (Int8.ofInt c) (change k)) 1 = (t.addAll ds 1).add (c + shift k) (change k).toUInt8 := by
    rw [Tape.addAll_bump, toInt_ofInt near, h, Int.add_zero]
  have moves (h : change k = 0) (t : Tape) :
      t.addAll ds 1 = (t.addAll ds 1).add (c + shift k) (change k).toUInt8 := by
    rw [h]
    exact (Tape.add_zero ..).symm
  rcases k with ⟨symbol, count, start, position⟩
  cases symbol with
  | inc | dec =>
    refine ⟨ds.bump (Int8.ofInt c) (change _), ?_, adds rfl⟩
    show walk c _ ts = walk (c + 0) _ ts
    rw [Int.add_zero]
  | _ => exact ⟨ds, rfl, moves rfl⟩

/-- Along the tokens, the tape is the first tape with the changes so far, seen from the cursor reached so far. -/
theorem runs_walk {ts : List Token} (run : ∀ k ∈ ts, k.symbol.isRun = true) {t : Tape} {io : Streams} {c : Int}
    {ds : Deltas} (on : OnTape (t.cursor + c)) (stays : StaysFrom (t.cursor + c) ts)
    (near : FitsByte c) (far : firstFar? c ts = none) {b : Setting} :
    Runs (ts.map Token.instruction) ⟨(t.addAll ds 1).move c, io⟩ b
      ↔ ⟨(t.addAll (walk c ds ts).2 1).move (walk c ds ts).1, io⟩ = b := by
  induction ts generalizing c ds with
  | nil => exact runs_nil_iff
  | cons k ts ih =>
    obtain ⟨on', stays'⟩ := stays
    rw [Int.add_assoc] at on' stays'
    have near' : FitsByte (c + shift k) := by
      rw [firstFar?] at far
      split at far
      · next h => exact h
      · cases far
    rw [firstFar?, if_pos near'] at far
    obtain ⟨ds', hwalk, hds⟩ := walk_cons near ds k ts
    have here : (((t.addAll ds 1).move c).move (shift k)).add 0 (change k).toUInt8
        = (t.addAll ds' 1).move (c + shift k) := by
      rw [Tape.move_move (by rw [Tape.cursor_addAll]; exact on),
        Tape.add_move (by rw [Tape.cursor_addAll]; exact on'),
        Int.add_zero, hds]
    -- a move from one place in the range of a signed byte to another cannot be long
    have small : (shift k).natAbs ≤ maxRun := by
      unfold FitsByte at near near'
      unfold maxRun
      omega
    rw [List.map_cons, runs_token_iff (run k (by simp)) small, here, hwalk]
    exact ih (fun k' h => run k' (List.mem_cons_of_mem _ h)) on' stays' near' far

theorem fitsByte_walk {ts : List Token} {c : Int} {ds : Deltas} (near : FitsByte c) (far : firstFar? c ts = none) :
    FitsByte (walk c ds ts).1 := by
  induction ts generalizing c ds with
  | nil => exact near
  | cons k ts ih =>
    obtain ⟨ds', hwalk, -⟩ := walk_cons near ds k ts
    rw [firstFar?] at far
    split at far
    · next h =>
      rw [hwalk]
      exact ih h far
    · cases far

/-! ### The canonical body -/

theorem runs_adds {ds : Deltas} {p : Program} {a b : Setting} :
    Runs (ds.map (fun e => .add e.2 e.1) ++ p) a b ↔ Runs p ⟨a.tape.addAll ds 1, a.streams⟩ b := by
  induction ds generalizing a with
  | nil => rfl
  | cons e ds ih =>
    rw [List.map_cons, List.cons_append, runs_plain_iff rfl, ih, Tape.addAll_cons, UInt8.mul_one]

theorem runs_canonicalBody_iff {s : LoopSummary} {a b : Setting} :
    Runs s.canonicalBody a b
      ↔ ⟨(a.tape.addAll s.deltas 1).move s.displacement.toInt, a.streams⟩ = b := by
  rw [canonicalBody, runs_adds]
  split
  · next h =>
    have h0 : (0 : Int8).toInt = 0 := rfl
    rw [runs_nil_iff, h, h0, Tape.move_zero]
  · rw [runs_plain_iff rfl, runs_nil_iff, Int8.toInt_toInt32]

theorem ofBody_eq_ok {ts : List Token} {s : LoopSummary} (h : ofBody ts = .ok s) :
    (∀ k ∈ ts, k.symbol.isRun = true) ∧ firstFar? 0 ts = none ∧ s = ofPass ts := by
  rw [ofBody_eq] at h
  split at h
  · cases h
  · next plain =>
    split at h
    · cases h
    · next far =>
      cases h
      exact ⟨firstEffect?_eq_none_iff.1 plain, far, rfl⟩

/-- A body agrees with its canonical form wherever its moves stay on the tape. -/
theorem agree_canonicalBody {ts : List Token} {s : LoopSummary} (h : ofBody ts = .ok s) {a : Setting}
    (stays : StaysFrom a.tape.cursor ts) : Agree a (ts.map Token.instruction) s.canonicalBody := by
  obtain ⟨run, far, rfl⟩ := ofBody_eq_ok h
  intro b
  have on : OnTape (a.tape.cursor + 0) := by
    rw [Int.add_zero]
    exact a.tape.onTape_cursor
  have pass : Runs (ts.map Token.instruction) ⟨(a.tape.addAll [] 1).move 0, a.streams⟩ b ↔ _ :=
    runs_walk run on (by rw [Int.add_zero]; exact stays) fitsByte_zero far
  rw [Tape.addAll_nil, Tape.move_zero] at pass
  rw [pass, runs_canonicalBody_iff, ofPass, Tape.addAll_filter, toInt_ofInt (fitsByte_walk fitsByte_zero far)]

end TapeLang
