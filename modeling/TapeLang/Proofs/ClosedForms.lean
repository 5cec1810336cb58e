import TapeLang.Proofs.Straight

/-!
# Closed forms of loops

A loop around a canonical body that changes its counter by one in each pass ends after as many passes as the counter
says, or as many as are missing to 256, and leaves what the closed form leaves (`agree_closedForm`).  This holds at
the ends of the tape too: a target off the tape is skipped by the loop as it is by the closed form.
-/

namespace TapeLang

open Program LoopSummary

/-- Every offset stands once, the smallest first. -/
def Deltas.Ascending (ds : Deltas) : Prop := ds.Pairwise fun e f => e.1 < f.1

namespace Tape

theorem current_addAll_of_ne {es : List (Int8 × Int8)} (h : ∀ e ∈ es, e.1 ≠ 0) (t : Tape) (k : UInt8) :
    (t.addAll es k).current = t.current := by
  induction es generalizing t with
  | nil => rfl
  | cons e es ih =>
    have he : e.1.toInt ≠ 0 := fun h' => h e (by simp) (Int8.toInt.inj h')
    rw [addAll_cons, ih fun f hf => h f (List.mem_cons_of_mem _ hf), current_add_of_ne he]

/-- The entry of the counter can be taken last. -/
theorem addAll_counter {ds : Deltas} (asc : ds.Ascending) {δ : Int8} (h : ds.at? 0 = some δ) (t : Tape) (k : UInt8) :
    t.addAll ds k = (t.addAll (ds.filter fun e => e.1 != 0) k).add 0 (δ.toUInt8 * k) := by
  induction ds generalizing t with
  | nil => cases h
  | cons e ds ih =>
    obtain ⟨first, asc'⟩ := List.pairwise_cons.1 asc
    rcases e with ⟨o, d⟩
    by_cases ho : o = 0
    · subst ho
      rw [Deltas.at?, List.lookup_cons_self, Option.some.injEq] at h
      subst h
      have hds : ds.filter (fun e => e.1 != 0) = ds := by
        rw [List.filter_eq_self]
        intro e he
        have := first e he
        simp only [bne_iff_ne]
        intro h0
        rw [h0] at this
        exact Int8.lt_irrefl this
      rw [List.filter_cons_of_neg (by simp), hds, addAll_cons, addAll_add]
      rfl
    · have h' : Deltas.at? ds 0 = some δ := by
        rw [Deltas.at?, List.lookup_cons] at h
        have : ((0 : Int8) == o) = false := by simpa using fun h => ho h.symm
        rw [this] at h
        exact h
      rw [List.filter_cons_of_pos (by simpa using ho), addAll_cons, addAll_cons, ih asc' h']

theorem addAll_map_mul (t : Tape) (es : List (Int8 × Int8)) (sign : Int8) (k : UInt8) :
    t.addAll (es.map fun e => (e.1, e.2 * sign)) k = t.addAll es (sign.toUInt8 * k) := by
  induction es generalizing t with
  | nil => rfl
  | cons e es ih =>
    have h : (e.2 * sign).toUInt8 * k = e.2.toUInt8 * (sign.toUInt8 * k) := UInt8.mul_assoc ..
    rw [List.map_cons, addAll_cons, addAll_cons, ih, h]

theorem add_neg_current (t : Tape) : t.add 0 (-t.current) = t.setCurrent 0 := by
  apply ext_get (by rw [cursor_add, cursor_setCurrent])
  intro o
  rw [get_add, get_setCurrent]
  by_cases h : o = 0
  · subst h
    rw [Int.add_zero, if_pos ⟨rfl, t.onTape_cursor⟩, if_pos rfl, get_zero]
    grind
  · rw [if_neg (by simp [h]), if_neg h]

end Tape

theorem apply_transfer (entries : List (Int8 × Int8)) (t : Tape) :
    (LoopSummary.transfer entries).apply t = t.transfer entries := by
  unfold LoopSummary.transfer
  split
  · rfl
  · split
    · next h =>
      subst h
      rfl
    · split
      · next h =>
        subst h
        rfl
      · rfl
  · rfl

/-! ### A loop that counts -/

variable {s : LoopSummary} {δ sign : Int8}

theorem current_counter (asc : s.deltas.Ascending) (counter : s.deltas.at? 0 = some δ) (t : Tape) (k : UInt8) :
    (t.addAll s.deltas k).current = t.current + δ.toUInt8 * k := by
  rw [Tape.addAll_counter asc counter, Tape.current_add_zero, Tape.current_addAll_of_ne]
  simp

/-- As long as the counter is not zero the loop goes on; `n` passes change every cell `n` times. -/
theorem rounds_canonicalBody (still : s.displacement = 0) (asc : s.deltas.Ascending)
    (counter : s.deltas.at? 0 = some δ) (t : Tape) (io : Streams) {n : Nat}
    (h : ∀ j < n, t.current + δ.toUInt8 * UInt8.ofNat j ≠ 0) :
    Rounds s.canonicalBody n ⟨t, io⟩ ⟨t.addAll s.deltas (UInt8.ofNat n), io⟩ := by
  induction n with
  | zero =>
    rw [show UInt8.ofNat 0 = 0 from rfl, Tape.addAll_zero]
    exact .none
  | succ n ih =>
    refine (ih fun j hj => h j (by omega)).next ⟨?_, ?_⟩
    · rw [current_counter asc counter]
      exact h n (by omega)
    · have h0 : (0 : Int8).toInt = 0 := rfl
      rw [runs_canonicalBody_iff, still, h0, Tape.move_zero, Tape.addAll_addAll, UInt8.ofNat_add]
      rfl

/-- A loop whose counter changes by `-sign`, which is one or minus one, in each pass.  The counter, taken as often as
`sign` says, is the number of passes. -/
theorem rounds_counting_loop (still : s.displacement = 0) (asc : s.deltas.Ascending)
    (counter : s.deltas.at? 0 = some δ) (opposite : δ.toUInt8 = -sign.toUInt8)
    (unit : sign.toUInt8 * sign.toUInt8 = 1) (t : Tape) (io : Streams) :
    Rounds s.canonicalBody (sign.toUInt8 * t.current).toNat ⟨t, io⟩ ⟨t.transfer (s.entriesPerUnit sign), io⟩ := by
  have rounds := rounds_canonicalBody still asc counter t io (n := (sign.toUInt8 * t.current).toNat) (by
    intro j hj h
    have hj' : UInt8.ofNat j = sign.toUInt8 * t.current := by
      rw [opposite] at h
      grind
    have := congrArg UInt8.toNat hj'
    rw [UInt8.toNat_ofNat', Nat.mod_eq_of_lt (Nat.lt_trans hj (UInt8.toNat_lt _))] at this
    omega)
  have after : t.addAll s.deltas (sign.toUInt8 * t.current) = t.transfer (s.entriesPerUnit sign) := by
    rw [Tape.transfer_eq, entriesPerUnit, Tape.addAll_map_mul, Tape.addAll_counter asc counter,
      ← Tape.add_neg_current, Tape.current_addAll_of_ne (by simp)]
    congr 1
    grind
  rwa [UInt8.ofNat_toNat, after] at rounds

theorem runs_counting_loop (still : s.displacement = 0) (asc : s.deltas.Ascending)
    (counter : s.deltas.at? 0 = some δ) (opposite : δ.toUInt8 = -sign.toUInt8)
    (unit : sign.toUInt8 * sign.toUInt8 = 1) (t : Tape) (io : Streams) :
    Runs [.loop s.canonicalBody] ⟨t, io⟩ ⟨t.transfer (s.entriesPerUnit sign), io⟩ :=
  runs_loop_iff.2 ⟨(rounds_counting_loop still asc counter opposite unit t io).passes, Tape.current_setCurrent ..⟩

/-! ### A loop that seeks -/

theorem agree_seek (step : Int32) (a : Setting) : Agree a [.loop [.move step]] [.seek step] := by
  intro b
  constructor
  · rw [runs_loop_iff]
    rintro ⟨passes, zero⟩
    induction passes using Relation.ReflTransGen.head_induction_on with
    | refl => exact .found zero .done
    | head first _ ih =>
      obtain ⟨nonzero, once⟩ := first
      rw [runs_plain_iff rfl, runs_nil_iff] at once
      subst once
      exact .seek nonzero ih
  · intro h
    generalize hp : [Instruction.seek step] = p at h
    induction h with
    | plain effect _ _ =>
      cases hp
      cases effect
    | found zero after _ =>
      cases hp
      cases after
      exact .leave zero .done
    | seek nonzero _ ih =>
      cases hp
      exact .pass nonzero (.plain rfl .done) (ih rfl)
    | _ => cases hp

/-! ### All closed forms -/

/-- Wherever it starts, the loop around a canonical body and its closed form come to the same end. -/
theorem agree_closedForm {i : Instruction} (asc : s.deltas.Ascending) (h : s.closedForm? = some i) (a : Setting) :
    Agree a [.loop s.canonicalBody] [i] := by
  have counted {δ sign : Int8} (still : s.displacement = 0) (counter : s.deltas.at? 0 = some δ)
      (opposite : δ.toUInt8 = -sign.toUInt8) (unit : sign.toUInt8 * sign.toUInt8 = 1) :
      Agree a [.loop s.canonicalBody] [.closed (transfer (s.entriesPerUnit sign))] := by
    refine agree_of_runs (runs_counting_loop still asc counter opposite unit a.tape a.streams) ?_
    rw [runs_plain_iff rfl, runs_nil_iff, apply_transfer]
  unfold closedForm? at h
  split at h
  · next still =>
    split at h
    · next counter =>
      cases h
      exact counted still counter rfl rfl
    · split at h
      · next counter =>
        cases h
        exact counted still counter rfl rfl
      · cases h
  · next moving =>
    split at h
    · next nothing =>
      cases h
      have hb : s.canonicalBody = [.move s.displacement.toInt32] := by
        rw [canonicalBody, List.isEmpty_iff.1 nothing, if_neg moving]
        rfl
      rw [hb]
      exact agree_seek _ a
    · cases h

/-! ### The changes of a pass are ascending -/

private theorem mem_bump {ds : Deltas} {o a : Int8} {e : Int8 × Int8} (h : e ∈ ds.bump o a) :
    e.1 = o ∨ ∃ f ∈ ds, f.1 = e.1 := by
  induction ds with
  | nil =>
    rw [Deltas.bump, List.mem_singleton] at h
    exact .inl (by rw [h])
  | cons d ds ih =>
    unfold Deltas.bump at h
    split at h
    · rcases List.mem_cons.1 h with rfl | h
      · exact .inl rfl
      · exact .inr ⟨e, h, rfl⟩
    · split at h
      · rcases List.mem_cons.1 h with rfl | h
        · exact .inr ⟨d, by simp, rfl⟩
        · exact .inr ⟨e, List.mem_cons_of_mem _ h, rfl⟩
      · rcases List.mem_cons.1 h with rfl | h
        · exact .inr ⟨d, by simp, rfl⟩
        · rcases ih h with h | ⟨f, hf, hfe⟩
          · exact .inl h
          · exact .inr ⟨f, List.mem_cons_of_mem _ hf, hfe⟩

theorem ascending_bump {ds : Deltas} (h : ds.Ascending) (o a : Int8) : (ds.bump o a).Ascending := by
  induction ds with
  | nil => exact List.pairwise_singleton ..
  | cons d ds ih =>
    obtain ⟨first, h'⟩ := List.pairwise_cons.1 h
    unfold Deltas.bump
    split
    · next hlt =>
      refine List.pairwise_cons.2 ⟨?_, h⟩
      intro e he
      rcases List.mem_cons.1 he with rfl | he
      · exact hlt
      · exact Int8.lt_trans hlt (first e he)
    · next hge =>
      split
      · exact List.pairwise_cons.2 ⟨first, h'⟩
      · next hne =>
        refine List.pairwise_cons.2 ⟨?_, ih h'⟩
        intro e he
        rcases mem_bump he with rfl | ⟨f, hf, hfe⟩
        · exact Int8.lt_of_le_of_ne (Int8.not_lt.1 hge) fun h => hne h.symm
        · rw [← hfe]
          exact first f hf

theorem ascending_walk {ts : List Token} {c : Int} {ds : Deltas} (h : ds.Ascending) : (walk c ds ts).2.Ascending := by
  induction ts generalizing c ds with
  | nil => exact h
  | cons k ts ih =>
    unfold walk
    split
    · exact ih (ascending_bump h _ _)
    · exact ih (ascending_bump h _ _)
    · exact ih h

theorem ascending_ofPass (ts : List Token) : (ofPass ts).deltas.Ascending := by
  have h : (walk 0 [] ts).2.Ascending := ascending_walk List.Pairwise.nil
  exact h.filter _

end TapeLang
