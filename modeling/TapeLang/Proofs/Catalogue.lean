import TapeLang.Proofs.CountingLoops
import TapeLang.Proofs.Replacement

/-!
# The catalogue

Every fragment of the catalogue agrees with its closed form on a calm run.  The flat ones are what their summary
says.  For the three that hold loops the inner loops are brought into closed form first (`agree_inner`), and that the
cells they work on are on the tape is read off the moves of the first pass.  So all outlines agree with what they are
lowered to (`agree_lower`).
-/

namespace TapeLang

open Program LoopSummary

open Function (update)

namespace Outline

variable {o : Optimizations} {x body rest : Outline} {opening closing : Token} {a : Setting}

/-! ### Going along a calm run -/

/-- The run is calm from some tape on that shows, from the cell with index `c`, the cursor at `k` and the cells
of `f`. -/
def CalmAt (o : Optimizations) (x : Outline) (c k : Int) (f : Int → UInt8) : Prop :=
  ∃ (t : Tape) (io : Streams), t.Shows c k f ∧ x.Calm o ⟨t, io⟩

variable {c k l : Int} {f : Int → UInt8}

theorem Calm.at (h : x.Calm o a) : x.CalmAt o a.tape.cursor 0 a.tape.get :=
  ⟨a.tape, a.streams, a.tape.shows_self, h⟩

theorem CalmAt.run {key : Token} (h : (token key rest).CalmAt o c k f) (run : key.symbol.isRun = true)
    (small : key.count ≤ maxRun) (hl : k + shift key = l) :
    OnTape (c + l) ∧ rest.CalmAt o c l (update f l (f l + (change key).toUInt8)) := by
  obtain ⟨t, io, shows, calm⟩ := h
  obtain ⟨on, calm'⟩ := calm.step run small
  rw [shows.cursor, Int.add_assoc, hl] at on
  exact ⟨on, _, io, (shows.move hl on).add (Int.add_zero l) on _, calm'⟩

theorem CalmAt.move {key : Token} (h : (token key rest).CalmAt o c k f) (run : key.symbol.isRun = true)
    (small : key.count ≤ maxRun) (hl : k + shift key = l) (still : change key = 0) :
    OnTape (c + l) ∧ rest.CalmAt o c l f := by
  obtain ⟨on, calm⟩ := h.run run small hl
  have e : f l + (change key).toUInt8 = f l := by
    rw [still]
    exact UInt8.add_zero _
  rw [e, Function.update_eq_self] at calm
  exact ⟨on, calm⟩

theorem CalmAt.inside (h : (loop opening closing body rest).CalmAt o c k f) (nonzero : f k ≠ 0) :
    body.CalmAt o c k f := by
  obtain ⟨t, io, shows, calm⟩ := h
  refine ⟨t, io, shows, calm.inside .refl ?_⟩
  rw [shows.current]
  exact nonzero

theorem CalmAt.skip (h : (loop opening closing body rest).CalmAt o c k f) (zero : f k = 0) : rest.CalmAt o c k f := by
  obtain ⟨t, io, shows, calm⟩ := h
  exact ⟨t, io, shows, calm.past (runs_loop_of_zero (shows.current.trans zero))⟩

/-- A loop is left where its replacement ends. -/
theorem CalmAt.past {i : Instruction} {k' : Int} {f' : Int → UInt8}
    (h : (loop opening closing body rest).CalmAt o c k f) (regular : (loop opening closing body rest).Regular)
    (hv : verdictOfSummary body.tokens = .replaced i) (takes : Takes [i] c k f k' f') : rest.CalmAt o c k' f' := by
  obtain ⟨t, io, shows, calm⟩ := h
  obtain ⟨t', shows', runs⟩ := takes t io shows
  have agree : Agree ⟨t, io⟩ [.loop body.literal] [i] :=
    agree_summary regular.body hv fun b passes nonzero => calm.inside passes nonzero
  exact ⟨t', io, shows', calm.past ((agree _).2 runs)⟩

/-! ### Fragments that hold loops -/

/-- A loop agrees with the loop around its body in which the inner loops have been replaced. -/
theorem agree_inner {symbols : List Symbol} {p : Program} (regular : (loop opening closing body rest).Regular)
    (calm : (loop opening closing body rest).Calm o a) (text : body.text = Idiom.spelling symbols)
    (h : (ofSymbols symbols).lower ⟨false, true⟩ = .ok p) : Agree a [.loop body.literal] [.loop p] := by
  rw [← regular.body.bare_eq text] at h
  refine .loop fun b passes nonzero => ?_
  have calm' : body.bare.Calm ⟨false, true⟩ b := (calm.inside passes nonzero).bare.mono fun h => nomatch h
  rw [← literal_bare]
  exact agree_lower_plain rfl regular.body.bare h calm'

/-- What is known at the start of the first pass. -/
theorem Calm.first {symbols : List Symbol} (regular : (loop opening closing body rest).Regular)
    (calm : (loop opening closing body rest).Calm o a) (text : body.text = Idiom.spelling symbols)
    (nonzero : a.tape.current ≠ 0) :
    (ofSymbols symbols).Regular ∧ (ofSymbols symbols).CalmAt o a.tape.cursor 0 a.tape.get := by
  rw [← regular.body.bare_eq text]
  exact ⟨regular.body.bare, (calm.inside .refl nonzero).bare.at⟩

/-- On a zero a loop does nothing. -/
theorem agree_of_zero {p : Program} {form : ClosedForm} (zero : a.tape.current = 0)
    (same : form.apply a.tape = a.tape) :
    Agree a [.loop p] [.closed form] := by
  refine agree_of_runs (runs_loop_of_zero zero) (.plain rfl ?_)
  rw [runs_nil_iff, same]

/-- Whether or not the first inner loop is entered, the cursor comes to `c3`. -/
theorem onTape_multiply (calm : (ofSymbols Idiom.multiplyBody).CalmAt o c 0 f) : OnTape (c + 3) := by
  obtain ⟨_, calm⟩ := calm.move (l := 1) rfl (by decide) rfl rfl
  by_cases zero : f 1 = 0
  · obtain ⟨on₃, _⟩ := (calm.skip zero).move (l := 3) rfl (by decide) rfl rfl
    exact on₃
  · obtain ⟨_, calm⟩ := (calm.inside zero).move (l := 2) rfl (by decide) rfl rfl
    obtain ⟨_, calm⟩ := calm.run (l := 2) rfl (by decide) rfl
    obtain ⟨on₃, _⟩ := calm.move (l := 3) rfl (by decide) rfl rfl
    exact on₃

theorem agree_multiply (regular : (loop opening closing body rest).Regular)
    (calm : (loop opening closing body rest).Calm o a) (text : body.text = Idiom.spelling Idiom.multiplyBody) :
    Agree a [.loop body.literal] [.closed .multiply] := by
  refine (agree_inner (p := multiplyPass) regular calm text rfl).trans ?_
  by_cases zero : a.tape.current = 0
  · exact agree_of_zero zero (Tape.multiply_of_zero zero)
  · obtain ⟨-, calm₀⟩ := Calm.first regular calm text zero
    exact agree_of_runs (runs_multiply (onTape_multiply calm₀) _) (.plain rfl .done)

/-- The cursor comes to `c3`, and to `c4` if there is something to multiply. -/
theorem onTape_exponent (regular : (ofSymbols Idiom.exponentBody).Regular)
    (calm : (ofSymbols Idiom.exponentBody).CalmAt o c 0 f) (clear : f 3 = 0) :
    OnTape (c + 3) ∧ (f 2 ≠ 0 → OnTape (c + 4)) := by
  obtain ⟨_, calm⟩ := calm.move (l := 2) rfl (by decide) rfl rfl
  by_cases zero : f 2 = 0
  · obtain ⟨on₃, _⟩ := (calm.skip zero).move (l := 3) rfl (by decide) rfl rfl
    exact ⟨on₃, fun nonzero => absurd zero nonzero⟩
  · obtain ⟨on₃, _⟩ := (calm.inside zero).move (l := 3) rfl (by decide) rfl rfl
    refine ⟨on₃, fun _ => ?_⟩
    have calm := calm.past regular.token.2 rfl (takes_transferAdd (l := 3) rfl on₃)
    obtain ⟨_, calm⟩ := calm.move (l := 3) rfl (by decide) rfl rfl
    have entered : update (update f 3 (f 3 + f 2)) 2 0 3 ≠ 0 := by
      rw [Function.update_of_ne (by decide), Function.update_self, clear, UInt8.zero_add]
      exact zero
    obtain ⟨_, calm⟩ := (calm.inside entered).move (l := 1) rfl (by decide) rfl rfl
    by_cases zero : update (update f 3 (f 3 + f 2)) 2 0 1 = 0
    · obtain ⟨on₄, _⟩ := (calm.skip zero).move (l := 4) rfl (by decide) rfl rfl
      exact on₄
    · obtain ⟨_, calm⟩ := (calm.inside zero).move (l := 2) rfl (by decide) rfl rfl
      obtain ⟨_, calm⟩ := calm.run (l := 2) rfl (by decide) rfl
      obtain ⟨on₄, _⟩ := calm.move (l := 4) rfl (by decide) rfl rfl
      exact on₄

theorem agree_exponent (idioms : o.idioms = true) (regular : (loop opening closing body rest).Regular)
    (calm : (loop opening closing body rest).Calm o a) (text : body.text = Idiom.spelling Idiom.exponentBody) :
    Agree a [.loop body.literal] [.closed .exponent] := by
  refine (agree_inner (p := exponentPass) regular calm text rfl).trans ?_
  by_cases zero : a.tape.current = 0
  · exact agree_of_zero zero (Tape.exponent_of_zero zero)
  · obtain ⟨clear₃, clear₄⟩ := (calm.here idioms zero).1 text
    obtain ⟨regular₀, calm₀⟩ := Calm.first regular calm text zero
    obtain ⟨on₃, on₄⟩ := onTape_exponent regular₀ calm₀ clear₃
    exact agree_of_runs (runs_exponent on₃ (fun _ => ⟨clear₃, clear₄, on₄⟩) _) (.plain rfl .done)

/-- The divisor being more than one, the first pass goes on over `c2` and `c4` to `c5`. -/
theorem onTape_divide (regular : (ofSymbols Idiom.divideBody).Regular)
    (calm : (ofSymbols Idiom.divideBody).CalmAt o c 0 f) (divisor : f 1 ≠ 1) (clear : f 4 = 0) :
    OnTape (c + 5) := by
  obtain ⟨_, calm⟩ := calm.run (l := 0) rfl (by decide) rfl
  obtain ⟨_, calm⟩ := calm.move (l := 1) rfl (by decide) rfl rfl
  obtain ⟨_, calm⟩ := calm.run (l := 1) rfl (by decide) rfl
  have inner := regular.token.2.token.2.token.2
  generalize hg : update (update f 0 _) 1 _ = g at calm
  have nonzero : g 1 ≠ 0 := by
    rw [← hg, Function.update_self, Function.update_of_ne (by decide)]
    intro h
    apply divisor
    have : f 1 + 255 = 0 := h
    grind
  obtain ⟨on₂, calm'⟩ := (calm.inside nonzero).move (l := 2) rfl (by decide) rfl rfl
  obtain ⟨_, calm'⟩ := calm'.run (l := 2) rfl (by decide) rfl
  obtain ⟨on₄, _⟩ := calm'.move (l := 4) rfl (by decide) rfl rfl
  have zero : update g 2 (g 2 + 1) 4 = 0 := by
    rw [Function.update_of_ne (by decide), ← hg, Function.update_of_ne (by decide), Function.update_of_ne (by decide)]
    exact clear
  have calm := calm.past (i := .loop stepPass) inner rfl
    (Takes.pass nonzero ((takes_inc (l := 2) rfl on₂).cons <| (takes_move (l := 4) rfl on₄).cons takes_nil)
      (takes_loop_of_zero zero))
  obtain ⟨on₅, _⟩ := calm.move (l := 5) rfl (by decide) rfl rfl
  exact on₅

theorem agree_divide (idioms : o.idioms = true) (regular : (loop opening closing body rest).Regular)
    (calm : (loop opening closing body rest).Calm o a) (text : body.text = Idiom.spelling Idiom.divideBody) :
    Agree a [.loop body.literal] [.closed .divide] := by
  refine (agree_inner (p := dividePass) regular calm text rfl).trans ?_
  by_cases zero : a.tape.current = 0
  · exact agree_of_zero zero (Tape.divide_of_zero zero)
  · obtain ⟨divisor, clear₂, clear₃, clear₄, clear₅⟩ := (calm.here idioms zero).2 text
    obtain ⟨regular₀, calm₀⟩ := Calm.first regular calm text zero
    have on₅ := onTape_divide regular₀ calm₀ divisor clear₄
    exact agree_of_runs (runs_divide on₅ divisor clear₂ clear₃ clear₄ clear₅ zero _) (.plain rfl .done)

/-! ### All fragments -/

/-- A fragment of the catalogue is flat, and then it is what its summary says, or it is one of three. -/
theorem summary_of_mem_loopBodies : ∀ entry ∈ Idiom.loopBodies,
    verdictOfSummary (ofSymbols entry.1).tokens = .replaced (.closed entry.2) ∨
      entry = (Idiom.multiplyBody, .multiply) ∨ entry = (Idiom.exponentBody, .exponent) ∨
      entry = (Idiom.divideBody, .divide) := by
  simp only [Idiom.loopBodies, Idiom.transferBodies, List.map, List.cons_append, List.nil_append,
    List.forall_mem_cons]
  exact ⟨.inl rfl, .inl rfl, .inl rfl, .inl rfl, .inl rfl, .inl rfl, .inl rfl, .inl rfl, .inl rfl, .inl rfl, .inl rfl,
    .inr (.inl trivial), .inr (.inr (.inl trivial)), .inr (.inr (.inr trivial)), nofun⟩

theorem agree_idiom {form : ClosedForm} (idioms : o.idioms = true)
    (regular : (loop opening closing body rest).Regular)
    (calm : (loop opening closing body rest).Calm o a) (h : Idiom.ofLoopBody? body.text = some form) :
    Agree a [.loop body.literal] [.closed form] := by
  obtain ⟨entry, found, rfl⟩ := Option.map_eq_some_iff.1 h
  have matched := List.find?_some found
  have text : body.text = Idiom.spelling entry.1 := (beq_iff_eq.1 matched).symm
  rcases summary_of_mem_loopBodies entry (List.mem_of_find?_eq_some found) with flat | rfl | rfl | rfl
  · exact agree_of_text regular.body text flat fun b passes nonzero => calm.inside passes nonzero
  · exact agree_multiply regular calm text
  · exact agree_exponent idioms regular calm text
  · exact agree_divide idioms regular calm text

/-- Whatever replaces a loop agrees with it. -/
theorem agree_verdict {i : Instruction} (regular : (loop opening closing body rest).Regular)
    (calm : (loop opening closing body rest).Calm o a) (h : verdict o body = .replaced i) :
    Agree a [.loop body.literal] [i] := by
  unfold verdict at h
  split at h
  · next form hf =>
    cases h
    split at hf
    · next idioms => exact agree_idiom idioms regular calm hf
    · cases hf
  · split at h
    · exact agree_summary regular.body h fun b passes nonzero => calm.inside passes nonzero
    · cases h

/-- An outline and what it is lowered to agree on every calm run. -/
theorem agree_lower {p : Program} (regular : x.Regular) (h : x.lower o = .ok p) (calm : x.Calm o a) :
    Agree a x.literal p :=
  agree_lower_of agree_verdict regular h calm

end Outline

end TapeLang
