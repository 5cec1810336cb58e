import Mathlib.Data.List.Infix
import TapeLang.Proofs.ClosedForms
import TapeLang.Proofs.Rejection

/-!
# What the summary of a body says

A body either does something that no summary can hold, or it goes too far, or its summary says what one pass over it
does: where the cursor comes to, and how often every cell is added to, less how often it is taken from
(`LoopSummary.Describes`).  The three cases and their order are told from the symbols alone.  Walking over the tokens
keeps account of the symbols passed so far (`Passed.token`, `Passed.walk`), so `ofBody` gives the right one
(`summary_describes_one_pass`).
-/

namespace TapeLang

open LoopSummary

/-- How many times the symbol is met with the cursor at the offset. -/
def timesAt (symbol : Symbol) (o : Int) (l : List Symbol) : Nat :=
  (List.range l.length).countP fun i => l[i]? = some symbol ∧ cursorOf (l.take i) = o

/-- By how much symbols change the cell at an offset from where the cursor starts. -/
def addedAt (o : Int) (l : List Symbol) : Int := timesAt .inc o l - timesAt .dec o l

namespace LoopSummary

/-- The summary says where the symbols take the cursor, and by how much they change every cell, modulo 256.  Cells
that end up unchanged are left out. -/
structure SumsUp (l : List Symbol) (s : LoopSummary) : Prop where
  displacement : s.displacement.toInt = cursorOf l
  ascending : s.deltas.Ascending
  deltas : ∀ o : Int8, s.deltas.at? o =
    if Int8.ofInt (addedAt o.toInt l) = 0 then none else some (Int8.ofInt (addedAt o.toInt l))

/-- What is to be said about a body. -/
inductive Describes (body : List Token) : Except Obstacle LoopSummary → Prop
  /-- The first symbol that is neither a move nor an add, whatever stands before and behind it. -/
  | effect {earlier later : List Token} {t : Token} (split : body = earlier ++ t :: later)
      (plain : ∀ u ∈ earlier, u.symbol.isRun = true) (effect : t.symbol.isRun = false) :
      Describes body (.error (.effect t.symbol))
  /-- The first move that leads too far, and where to. -/
  | farOffset {t : Token} {offset : Int} (plain : ∀ u ∈ body, u.symbol.isRun = true) (leaves : Leaves body t offset) :
      Describes body (.error (.farOffset t.position offset))
  | summary {s : LoopSummary} (plain : ∀ u ∈ body, u.symbol.isRun = true)
      (near : ∀ l, l <+: body → FitsByte (cursorOf (l.flatMap Token.spell)))
      (sums : s.SumsUp (body.flatMap Token.spell)) : Describes body (.ok s)

end LoopSummary

/-! ### Changes as a map -/

namespace Deltas

variable {ds ds' : Deltas}

theorem at?_cons (e : Int8 × Int8) (ds : Deltas) (o : Int8) :
    at? (e :: ds) o = if o = e.1 then some e.2 else ds.at? o := by
  rw [at?, List.lookup_cons, at?]
  by_cases h : o = e.1
  · simp [h]
  · rw [beq_false_of_ne h, if_neg h]

theorem at?_eq_none_of_lt {o : Int8} (h : ∀ e ∈ ds, o < e.1) : ds.at? o = none := by
  rw [at?, List.lookup_eq_none_iff]
  intro e he
  have := h e he
  simp only [bne_iff_ne]
  rintro rfl
  exact Int8.lt_irrefl this

theorem at?_bump (asc : ds.Ascending) (o a o' : Int8) :
    (ds.bump o a).at? o' = if o' = o then some ((ds.at? o).getD 0 + a) else ds.at? o' := by
  induction ds with
  | nil => simp [bump, at?]
  | cons e ds ih =>
    obtain ⟨first, asc'⟩ := List.pairwise_cons.1 asc
    unfold bump
    split
    · next before =>
      have absent : at? (e :: ds) o = none := by
        apply at?_eq_none_of_lt
        intro f hf
        rcases List.mem_cons.1 hf with rfl | hf
        · exact before
        · exact Int8.lt_trans before (first f hf)
      rw [at?_cons, absent]
      simp
    · split
      · next same =>
        subst same
        simp only [at?_cons, if_true, Option.getD_some]
        split <;> rfl
      · next other =>
        simp only [at?_cons, ih asc', if_neg other]
        by_cases h : o' = o
        · subst h
          simp [other]
        · simp [h]

/-- Entries that change nothing are left out. -/
theorem at?_filter (asc : ds.Ascending) (o : Int8) :
    at? (ds.filter fun e => e.2 != 0) o = if (ds.at? o).getD 0 = 0 then none else some ((ds.at? o).getD 0) := by
  induction ds with
  | nil => simp [at?]
  | cons e ds ih =>
    obtain ⟨first, asc'⟩ := List.pairwise_cons.1 asc
    by_cases zero : e.2 = 0
    · rw [List.filter_cons_of_neg (by simpa using zero), ih asc', at?_cons]
      by_cases same : o = e.1
      · subst same
        rw [at?_eq_none_of_lt first, if_pos rfl, zero]
        rfl
      · rw [if_neg same]
    · rw [List.filter_cons_of_pos (by simpa using zero), at?_cons, at?_cons, ih asc']
      split
      · simp [zero]
      · rfl

theorem at?_eq_some_iff (asc : ds.Ascending) {o d : Int8} : ds.at? o = some d ↔ (o, d) ∈ ds := by
  induction ds with
  | nil => simp [at?]
  | cons e ds ih =>
    obtain ⟨first, asc'⟩ := List.pairwise_cons.1 asc
    rw [at?_cons, List.mem_cons]
    split
    · next same =>
      subst same
      constructor
      · intro h
        cases h
        exact .inl rfl
      · rintro (h | mem)
        · rw [← h]
        · exact absurd (first _ mem) (Int8.lt_irrefl)
    · next other =>
      rw [ih asc']
      constructor
      · exact .inr
      · rintro (h | mem)
        · exact absurd (congrArg Prod.fst h) other
        · exact mem

/-- Ascending changes are known by what they say about every offset. -/
theorem ext_at? (asc : ds.Ascending) (asc' : ds'.Ascending) (h : ∀ o, ds.at? o = ds'.at? o) : ds = ds' := by
  have nodup {ds : Deltas} (asc : ds.Ascending) : ds.Nodup := by
    refine List.nodup_iff_pairwise_ne.2 (asc.imp fun {e f} lt same => ?_)
    rw [same] at lt
    exact Int8.lt_irrefl lt
  refine List.Perm.eq_of_pairwise ?_ asc asc' ((List.perm_ext_iff_of_nodup (nodup asc) (nodup asc')).2 ?_)
  · intro e f _ _ lt gt
    exact absurd (Int8.lt_trans lt gt) Int8.lt_irrefl
  · rintro ⟨o, d⟩
    rw [← at?_eq_some_iff asc, h, at?_eq_some_iff asc']

end Deltas

theorem LoopSummary.SumsUp.unique {l : List Symbol} {s s' : LoopSummary} (h : s.SumsUp l) (h' : s'.SumsUp l) :
    s = s' := by
  rcases s with ⟨displacement, deltas⟩
  rcases s' with ⟨displacement', deltas'⟩
  obtain rfl : displacement = displacement' := Int8.toInt.inj (h.displacement.trans h'.displacement.symm)
  obtain rfl : deltas = deltas' :=
    Deltas.ext_at? h.ascending h'.ascending fun o => (h.deltas o).trans (h'.deltas o).symm
  rfl

/-! ### Counting symbols -/

theorem timesAt_concat (x : Symbol) (o : Int) (l : List Symbol) (s : Symbol) :
    timesAt x o (l ++ [s]) = timesAt x o l + if s = x ∧ cursorOf l = o then 1 else 0 := by
  rw [timesAt, List.length_append, List.length_singleton, List.range_succ, List.countP_append, List.countP_singleton]
  congr 1
  · apply List.countP_congr
    intro i hi
    have hi := List.mem_range.1 hi
    rw [List.getElem?_append_left hi, List.take_append_of_le_length (Nat.le_of_lt hi)]
  · simp

/-- A run of adds is met where the cursor stands before it. -/
theorem timesAt_run {x : Symbol} (still : x = .inc ∨ x = .dec) (o : Int) (l : List Symbol) (t : Token) :
    timesAt x o (l ++ t.spell) = timesAt x o l + if t.symbol = x ∧ cursorOf l = o then t.count else 0 := by
  rcases t with ⟨s, n, start, position⟩
  simp only [Token.spell]
  induction n with
  | zero => simp
  | succ n ih =>
    rw [List.replicate_succ', ← List.append_assoc, timesAt_concat, ih, cursorOf_append]
    by_cases same : s = x
    · subst same
      have here : cursorOf (List.replicate n s) = 0 := by
        rw [show List.replicate n s = Token.spell ⟨s, n, 0, 0⟩ from rfl, cursorOf_spell]
        rcases still with rfl | rfl <;> rfl
      rw [here, Int.add_zero]
      split <;> omega
    · simp [same]

theorem ofInt_addedAt_run (o : Int) (l : List Symbol) (t : Token) :
    Int8.ofInt (addedAt o (l ++ t.spell)) = Int8.ofInt (addedAt o l) + if cursorOf l = o then change t else 0 := by
  have e : addedAt o (l ++ t.spell) = addedAt o l
      + (if t.symbol = .inc ∧ cursorOf l = o then (t.count : Int) else 0)
      - (if t.symbol = .dec ∧ cursorOf l = o then (t.count : Int) else 0) := by
    rw [addedAt, timesAt_run (.inl rfl), timesAt_run (.inr rfl), addedAt]
    split <;> split <;> omega
  rw [e, Int8.ofInt_sub, Int8.ofInt_add]
  rcases t with ⟨symbol, count, start, position⟩
  by_cases here : cursorOf l = o
  · cases symbol <;> simp [here, change, Int8.ofInt_eq_ofNat, Int8.sub_eq_add_neg]
  · simp [here]

/-! ### Walking over the tokens -/

/-- Where the symbols passed so far lead, and by how much they change every cell. -/
structure Passed (l : List Symbol) (c : Int) (ds : Deltas) : Prop where
  cursor : c = cursorOf l
  ascending : ds.Ascending
  changes : ∀ o : Int8, (ds.at? o).getD 0 = Int8.ofInt (addedAt o.toInt l)

variable {l : List Symbol} {c : Int} {ds : Deltas} {body ts : List Token}

theorem passed_nil : Passed [] 0 [] := ⟨rfl, List.Pairwise.nil, fun _ => rfl⟩

/-- A token that changes nothing. -/
theorem Passed.still (h : Passed l c ds) {k : Token} (still : change k = 0) :
    Passed (l ++ k.spell) (c + shift k) ds := by
  refine ⟨?_, h.ascending, fun o => ?_⟩
  · rw [cursorOf_append, cursorOf_spell, h.cursor]
  · rw [ofInt_addedAt_run, still, ite_self, Int8.add_zero, h.changes]

/-- A token that changes the cell under the cursor. -/
theorem Passed.bump (h : Passed l c ds) (near : FitsByte c) (k : Token) :
    Passed (l ++ k.spell) (c + shift k) (ds.bump (Int8.ofInt c) (change k)) := by
  refine ⟨?_, ascending_bump h.ascending _ _, fun o => ?_⟩
  · rw [cursorOf_append, cursorOf_spell, h.cursor]
  · have place : cursorOf l = o.toInt ↔ o = Int8.ofInt c := by
      rw [← h.cursor, ← Int8.toInt_inj, toInt_ofInt near]
      exact eq_comm
    rw [Deltas.at?_bump h.ascending, ofInt_addedAt_run]
    simp only [place]
    split
    · next same =>
      rw [← same, Option.getD_some, h.changes]
    · rw [Int8.add_zero, h.changes]

theorem Passed.token (h : Passed l c ds) (near : FitsByte c) (k : Token) :
    ∃ ds', (∀ ts, walk c ds (k :: ts) = walk (c + shift k) ds' ts) ∧ Passed (l ++ k.spell) (c + shift k) ds' := by
  rcases k with ⟨symbol, count, start, position⟩
  cases symbol with
  | inc | dec =>
    refine ⟨_, fun ts => ?_, h.bump near _⟩
    show walk c _ ts = walk (c + 0) _ ts
    rw [Int.add_zero]
  | _ => exact ⟨ds, fun ts => rfl, h.still rfl⟩

theorem Passed.walk (h : Passed l c ds) (near : FitsByte c) (far : firstFar? c ts = none) :
    Passed (l ++ ts.flatMap Token.spell) (walk c ds ts).1 (walk c ds ts).2 := by
  induction ts generalizing l c ds with
  | nil =>
    rw [List.flatMap_nil, List.append_nil]
    exact h
  | cons k ts ih =>
    unfold firstFar? at far
    split at far
    · next next =>
      obtain ⟨ds', walked, h'⟩ := h.token near k
      rw [walked, List.flatMap_cons, ← List.append_assoc]
      exact ih h' next far
    · cases far

theorem sumsUp_ofPass (far : firstFar? 0 body = none) : (ofPass body).SumsUp (body.flatMap Token.spell) := by
  obtain ⟨cursor, ascending, changes⟩ := passed_nil.walk fitsByte_zero far
  refine ⟨?_, ascending_ofPass body, fun o => ?_⟩
  · show (Int8.ofInt (walk 0 [] body).1).toInt = _
    rw [toInt_ofInt (fitsByte_walk fitsByte_zero far), cursor, List.nil_append]
  · rw [List.nil_append] at changes
    rw [← changes o]
    exact Deltas.at?_filter ascending o

/-! ### Bodies that go too far -/

theorem firstFar?_of_leaves {earlier : List Token} {t : Token} (later : List Token)
    (near : ∀ l, l <+: earlier → FitsByte (c + cursorOf (l.flatMap Token.spell)))
    (far : ¬ FitsByte (c + cursorOf ((earlier ++ [t]).flatMap Token.spell))) :
    firstFar? c (earlier ++ t :: later) = some (t.position, c + cursorOf ((earlier ++ [t]).flatMap Token.spell)) := by
  induction earlier generalizing c with
  | nil =>
    simp only [List.nil_append, List.flatMap_singleton, cursorOf_spell] at far ⊢
    rw [firstFar?, if_neg far]
  | cons k earlier ih =>
    have place (l : List Token) : c + cursorOf ((k :: l).flatMap Token.spell)
        = c + shift k + cursorOf (l.flatMap Token.spell) := by
      rw [List.flatMap_cons, cursorOf_append, cursorOf_spell, Int.add_assoc]
    have fits : FitsByte (c + shift k) := by
      have h := near [k] (by simp)
      rwa [place, List.flatMap_nil, show cursorOf [] = 0 from rfl, Int.add_zero] at h
    rw [List.cons_append, place] at far
    rw [List.cons_append, List.cons_append, place, firstFar?, if_pos fits]
    refine ih (fun l part => ?_) far
    have h := near (k :: l) (by simpa using part)
    rwa [place] at h

theorem firstFar?_eq_none (near : ∀ l, l <+: body → FitsByte (cursorOf (l.flatMap Token.spell))) :
    firstFar? 0 body = none := by
  cases h : firstFar? 0 body with
  | none => rfl
  | some far =>
    obtain ⟨earlier, t, later, rfl, -, -, -, offset, out⟩ :=
      leaves_of_firstFar? (p := far.1) (d := far.2) h fitsByte_zero
    rw [offset, Int.zero_add] at out
    exact absurd (near (earlier ++ [t]) ⟨later, by simp⟩) out

/-! ### All bodies -/

theorem describes_ofBody (body : List Token) : Describes body (ofBody body) := by
  rw [ofBody_eq]
  split
  · next symbol found =>
    obtain ⟨t, first, rfl⟩ := Option.map_eq_some_iff.1 found
    obtain ⟨effect, earlier, later, split, plain⟩ := List.find?_eq_some_iff_append.1 first
    exact .effect split (by simpa using plain) (by simpa using effect)
  · next plain =>
    have plain := firstEffect?_eq_none_iff.1 plain
    split
    · next position offset far =>
      obtain ⟨earlier, t, later, split, rfl, move, near, rfl, out⟩ := leaves_of_firstFar? far fitsByte_zero
      simp only [Int.zero_add] at near out ⊢
      exact .farOffset plain ⟨earlier, later, split, move, near, rfl, out⟩
    · next far =>
      refine .summary plain (fun l part => ?_) (sumsUp_ofPass far)
      have part' : l.flatMap Token.spell <+: body.flatMap Token.spell := by
        obtain ⟨later, rfl⟩ := part
        exact ⟨later.flatMap Token.spell, by simp⟩
      have fits := fitsByte_of_firstFar? far fitsByte_zero part'
      rwa [Int.zero_add] at fits

theorem ofBody_of_describes {r : Except Obstacle LoopSummary} (h : Describes body r) : ofBody body = r := by
  cases h with
  | @effect earlier later t split plain effect =>
    have found : firstEffect? body = some t.symbol :=
      Option.map_eq_some_iff.2 ⟨t, List.find?_eq_some_iff_append.2
        ⟨by simpa using effect, earlier, later, split, by simpa using plain⟩, rfl⟩
    rw [ofBody_eq, found]
  | farOffset plain leaves =>
    obtain ⟨earlier, later, rfl, -, near, rfl, out⟩ := leaves
    have far := firstFar?_of_leaves (c := 0) later (by simpa using near) (by simpa using out)
    rw [Int.zero_add] at far
    rw [ofBody_eq, firstEffect?_eq_none_iff.2 plain, far]
  | summary plain near sums =>
    have far := firstFar?_eq_none near
    rw [ofBody_eq, firstEffect?_eq_none_iff.2 plain, far]
    exact congrArg Except.ok ((sumsUp_ofPass far).unique sums)

/-! ### One pass on the tape -/

/-- If the cursor is on the tape after every token, every move ends on the tape. -/
theorem staysFrom_of_prefixes {place : Int}
    (visits : ∀ l, l <+: ts → OnTape (place + cursorOf (l.flatMap Token.spell))) : StaysFrom place ts := by
  induction ts generalizing place with
  | nil => trivial
  | cons k ts ih =>
    have later (l : List Token) : place + cursorOf ((k :: l).flatMap Token.spell)
        = place + shift k + cursorOf (l.flatMap Token.spell) := by
      rw [List.flatMap_cons, cursorOf_append, cursorOf_spell, Int.add_assoc]
    have here := visits [k] (by simp)
    rw [later, List.flatMap_nil, show cursorOf [] = 0 from rfl, Int.add_zero] at here
    refine ⟨here, ih fun l part => ?_⟩
    rw [← later]
    exact visits (k :: l) (by simpa using part)

theorem leavesTape_canonicalBody (s : LoopSummary) (m : Machine) (input : List UInt8) :
    Program.LeavesTape s.canonicalBody m input ((m.tape.addAll s.deltas 1).move s.displacement.toInt) :=
  Program.leavesTape_of_runs (runs_canonicalBody_iff.2 rfl)

/-- What is found out about a body is what is to be said about it, and nothing else.  If that is a summary, then
wherever the cursor does not leave the tape, one pass over the tokens leaves what the short body leaves that is made
from the summary. -/
theorem summary_describes_one_pass (body : List Token) :
    (∀ r, ofBody body = r ↔ Describes body r) ∧
    ∀ s, ofBody body = .ok s → ∀ (m : Machine) (input : List UInt8),
      (∀ l, l <+: body → OnTape (m.tape.cursor + cursorOf (l.flatMap Token.spell))) →
      ∃ t, Program.LeavesTape (body.map Token.instruction) m input t ∧
        Program.LeavesTape s.canonicalBody m input t := by
  refine ⟨fun r => ⟨?_, ofBody_of_describes⟩, ?_⟩
  · rintro rfl
    exact describes_ofBody body
  · intro s summary m input visits
    have agree := agree_canonicalBody (a := ⟨m.tape, .ofInput input⟩) summary (staysFrom_of_prefixes visits)
    exact ⟨_, Program.leavesTape_of_runs ((agree _).2 (runs_canonicalBody_iff.2 rfl)),
      leavesTape_canonicalBody s m input⟩

/-- `->+>--<+<+>>`: the counter changes twice and ends up as it was, the next cell is added to on two visits. -/
private def revisiting : List Token :=
  tokensOf ([.dec, .right, .inc, .right, .dec, .dec, .left, .inc, .left, .inc, .right, .right].map (⟨·, 0⟩))

/-- The pass ends on the last cell of the tape. -/
theorem revisiting_pass_is_canonical :
    ofBody revisiting = .ok ⟨2, [(1, 2), (2, -2)]⟩ ∧ Describes revisiting (.ok ⟨2, [(1, 2), (2, -2)]⟩) ∧
      ∃ t, Program.LeavesTape (revisiting.map Token.instruction) ⟨Tape.blank.move 29997, .zero⟩ [] t ∧
        Program.LeavesTape [.add 2 1, .add (-2) 2, .move 2] ⟨Tape.blank.move 29997, .zero⟩ [] t := by
  obtain ⟨describes, pass⟩ := summary_describes_one_pass revisiting
  have summary : ofBody revisiting = .ok ⟨2, [(1, 2), (2, -2)]⟩ := rfl
  refine ⟨summary, (describes _).1 summary, pass _ summary _ _ fun l part => ?_⟩
  revert l
  simp only [← List.mem_inits]
  decide

end TapeLang
