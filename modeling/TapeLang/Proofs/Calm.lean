import TapeLang.Proofs.Outlines
import TapeLang.Proofs.Straight

/-!
# Calm runs

`Outline.Reaches x a y b` says where the literal run of an outline comes to.  The run is calm if none of its moves
leaves the tape and every fragment of the catalogue that needs clear scratch cells finds them clear (`Outline.Calm`).
What is left of a calm run is calm, after a token (`Calm.token`), inside a loop (`Calm.inside`) and behind it
(`Calm.past`).  A run is calm if the execution of the literal program never moves off the tape and no fragment is in
the way (`calm_of_execution`).
-/

namespace TapeLang

open Program LoopSummary

namespace Outline

/-- Taken literally and started in `a`, the outline `x` comes to where `y` is what is left of the body that is gone
through, the setting being `b`.  A loop is come to from before it; that it goes round again does not count. -/
inductive Reaches : Outline → Setting → Outline → Setting → Prop
  | here {x : Outline} {a : Setting} : Reaches x a x a
  | token {k : Token} {rest y : Outline} {a b c : Setting} (once : Runs [k.instruction] a b)
      (later : Reaches rest b y c) : Reaches (.token k rest) a y c
  | inside {opening closing : Token} {body rest y : Outline} {a b c : Setting} (passes : Passes body.literal a b)
      (nonzero : b.tape.current ≠ 0) (later : Reaches body b y c) : Reaches (.loop opening closing body rest) a y c
  | past {opening closing : Token} {body rest y : Outline} {a b c : Setting} (passed : Runs [.loop body.literal] a b)
      (later : Reaches rest b y c) : Reaches (.loop opening closing body rest) a y c

/-- What the fragments of the catalogue ask of the tape on which a loop with this body is come to.  A loop that is
entered and needs clear cells finds them clear; and the one that divides does not divide by one. -/
def ClearFor (body : Outline) (t : Tape) : Prop :=
  t.current ≠ 0 →
    (body.text = Idiom.spelling Idiom.exponentBody → t.get 3 = 0 ∧ t.get 4 = 0) ∧
    (body.text = Idiom.spelling Idiom.divideBody →
      t.get 1 ≠ 1 ∧ t.get 2 = 0 ∧ t.get 3 = 0 ∧ t.get 4 = 0 ∧ t.get 5 = 0)

/-- What is asked of a tape on which the outline comes next: a move ends on the tape, and if fragments are replaced,
their scratch cells are clear. -/
def Fine (o : Optimizations) (t : Tape) : Outline → Prop
  | done => True
  | token k _ => OnTape (t.cursor + shift k)
  | loop _ _ body _ => o.idioms = true → body.ClearFor t

/-- Wherever the literal run comes to, all is fine. -/
def Calm (o : Optimizations) (x : Outline) (a : Setting) : Prop := ∀ y b, x.Reaches a y b → y.Fine o b.tape

variable {o : Optimizations} {k opening closing : Token} {x body rest : Outline} {a b : Setting}

theorem Calm.here (h : x.Calm o a) : x.Fine o a.tape := h x a .here

theorem Calm.token (h : (token k rest).Calm o a) (once : Runs [k.instruction] a b) : rest.Calm o b :=
  fun y c later => h y c (.token once later)

theorem Calm.inside (h : (loop opening closing body rest).Calm o a) (passes : Passes body.literal a b)
    (nonzero : b.tape.current ≠ 0) : body.Calm o b :=
  fun y c later => h y c (.inside passes nonzero later)

theorem Calm.past (h : (loop opening closing body rest).Calm o a) (passed : Runs [.loop body.literal] a b) :
    rest.Calm o b :=
  fun y c later => h y c (.past passed later)

/-- A token of a run stays on the tape, and what is left is calm after its effect. -/
theorem Calm.step (h : (Outline.token k rest).Calm o a) (run : k.symbol.isRun = true) (small : k.count ≤ maxRun) :
    OnTape (a.tape.cursor + shift k) ∧
      rest.Calm o ⟨(a.tape.move (shift k)).add 0 (change k).toUInt8, a.streams⟩ :=
  ⟨h.here, h.token ((runs_token_iff run ((natAbs_shift_le k).trans small)).2 .done)⟩

theorem Fine.mono {o' : Optimizations} (ho : o'.idioms = true → o.idioms = true) {t : Tape} (h : x.Fine o t) :
    x.Fine o' t := by
  cases x with
  | done => trivial
  | token k rest => exact h
  | loop opening closing body rest => exact fun idioms => h (ho idioms)

/-- With fewer optimizations less is asked. -/
theorem Calm.mono {o' : Optimizations} (ho : o'.idioms = true → o.idioms = true) (h : x.Calm o a) : x.Calm o' a :=
  fun y b later => (h y b later).mono ho

/-! ### Bodies without loops, input and output -/

theorem literal_of_run (formed : x.Formed) (run : ∀ k ∈ x.tokens, k.symbol.isRun = true) :
    x.literal = x.tokens.map Token.instruction := by
  induction x with
  | done => rfl
  | token k rest ih =>
    rw [literal, ih formed.2.2 fun l hl => run l (List.mem_cons_of_mem _ hl)]
    rfl
  | loop opening closing body rest _ _ =>
    have h := run opening (by simp [tokens])
    rw [formed.1] at h
    cases h

theorem staysFrom_of_calm (formed : x.Formed) (run : ∀ k ∈ x.tokens, k.symbol.isRun = true ∧ k.count ≤ maxRun)
    (calm : x.Calm o a) : StaysFrom a.tape.cursor x.tokens := by
  induction x generalizing a with
  | done => trivial
  | token k rest ih =>
    obtain ⟨isRun, small⟩ := run k (by simp [tokens])
    obtain ⟨on, calm'⟩ := calm.step isRun small
    have later := ih formed.2.2 (fun l hl => run l (List.mem_cons_of_mem _ hl)) calm'
    rw [Tape.cursor_add, Tape.cursor_move on] at later
    exact ⟨on, later⟩
  | loop opening closing body rest _ _ =>
    have h := (run opening (by simp [tokens])).1
    rw [formed.1] at h
    cases h

/-! ### Outlines without places -/

/-- The outline without the places of its tokens. -/
def bare : Outline → Outline
  | done => done
  | token k rest => token k.bare rest.bare
  | loop opening closing body rest => loop opening.bare closing.bare body.bare rest.bare

theorem tokens_bare (x : Outline) : x.bare.tokens = x.tokens.map Token.bare := by
  induction x with
  | done => rfl
  | token k rest ih => simp [bare, tokens, ih]
  | loop opening closing body rest ihBody ihRest => simp [bare, tokens, ihBody, ihRest]

theorem text_bare (x : Outline) : x.bare.text = x.text := by
  rw [text, text, tokens_bare, List.flatMap_map]
  rfl

theorem literal_bare (x : Outline) : x.bare.literal = x.literal := by
  induction x with
  | done => rfl
  | token k rest ih =>
    rw [bare, literal, literal, ih]
    rfl
  | loop opening closing body rest ihBody ihRest => rw [bare, literal, literal, ihBody, ihRest]

theorem Formed.bare (h : x.Formed) : x.bare.Formed := by
  induction x with
  | done => trivial
  | token k rest ih => exact ⟨h.1, h.2.1, ih h.2.2⟩
  | loop opening closing body rest ihBody ihRest => exact ⟨h.1, h.2.1, ihBody h.2.2.1, ihRest h.2.2.2⟩

theorem fine_bare {t : Tape} : x.bare.Fine o t ↔ x.Fine o t := by
  cases x with
  | done => rfl
  | token k rest => rfl
  | loop opening closing body rest => simp only [Outline.bare, Fine, ClearFor, text_bare]

theorem Reaches.bare {x y : Outline} {a b : Setting} (h : x.bare.Reaches a y b) :
    ∃ z, y = z.bare ∧ x.Reaches a z b := by
  generalize hx : x.bare = x' at h
  induction h generalizing x with
  | here => exact ⟨x, hx.symm, .here⟩
  | token once later ih =>
    cases x with
    | token k rest =>
      cases hx
      obtain ⟨z, hz, hr⟩ := ih rfl
      exact ⟨z, hz, .token once hr⟩
    | _ => cases hx
  | inside passes nonzero later ih =>
    cases x with
    | loop opening closing body rest =>
      cases hx
      obtain ⟨z, hz, hr⟩ := ih rfl
      rw [literal_bare] at passes
      exact ⟨z, hz, .inside passes nonzero hr⟩
    | _ => cases hx
  | past passed later ih =>
    cases x with
    | loop opening closing body rest =>
      cases hx
      obtain ⟨z, hz, hr⟩ := ih rfl
      rw [literal_bare] at passed
      exact ⟨z, hz, .past passed hr⟩
    | _ => cases hx

theorem Calm.bare (h : x.Calm o a) : x.bare.Calm o a := by
  intro y b reaches
  obtain ⟨z, rfl, hz⟩ := reaches.bare
  exact fine_bare.2 (h z b hz)

end Outline

namespace Execution

/-- No move that the execution makes leads off the tape. -/
def StaysOnTape (s : State) (io : Streams) : Prop :=
  ∀ s' io' amount rest, process.Leads s io s' io' → s'.phase = .running (.move amount :: rest) →
    OnTape (s'.machine.tape.cursor + amount.toInt)

end Execution

namespace Outline

/-! ### Executions that are calm -/

theorem Reaches.regular {x y : Outline} {a b : Setting} (h : x.Reaches a y b) (regular : x.Regular) : y.Regular := by
  induction h with
  | here => exact regular
  | token _ _ ih => exact ih regular.token.2
  | inside _ _ _ ih => exact ih regular.body
  | past _ _ ih => exact ih regular.rest

theorem leads_of_passes {body : Program} {a b : Setting} (h : Passes body a b) (rest : Program) (c : Counters) :
    ∃ c', Execution.process.Leads ⟨.running (.loop body :: rest), ⟨a.tape, c⟩⟩ a.streams
      ⟨.running (.loop body :: rest), ⟨b.tape, c'⟩⟩ b.streams := by
  induction h with
  | refl => exact ⟨c, .refl⟩
  | tail _ last ih =>
    obtain ⟨c₁, before⟩ := ih
    obtain ⟨c₂, first⟩ := Execution.step_loop
    obtain ⟨c₃, once⟩ := Execution.leads_of_runs last.2 (.loop body :: rest) c₂
    refine ⟨c₃, before.trans (.step ?_ once)⟩
    rw [first, if_neg last.1]

/-- What the literal run of an outline comes to, the execution of its literal program comes to. -/
theorem leads_of_reaches {x y : Outline} {a b : Setting} (h : x.Reaches a y b) (rest : Program) (c : Counters) :
    ∃ rest' c', Execution.process.Leads ⟨.running (x.literal ++ rest), ⟨a.tape, c⟩⟩ a.streams
      ⟨.running (y.literal ++ rest'), ⟨b.tape, c'⟩⟩ b.streams := by
  induction h generalizing rest c with
  | here => exact ⟨rest, c, .refl⟩
  | @token k later _ _ _ _ once _ ih =>
    obtain ⟨c₁, first⟩ := Execution.leads_of_runs once (later.literal ++ rest) c
    obtain ⟨rest', c₂, others⟩ := ih rest c₁
    exact ⟨rest', c₂, first.trans others⟩
  | @inside _ _ body later _ _ _ _ passes nonzero _ ih =>
    obtain ⟨c₁, before⟩ := leads_of_passes passes (later.literal ++ rest) c
    obtain ⟨c₂, first⟩ := Execution.step_loop
    obtain ⟨rest', c₃, others⟩ := ih (.loop body.literal :: (later.literal ++ rest)) c₂
    refine ⟨rest', c₃, before.trans (.step ?_ others)⟩
    rw [first, if_neg nonzero]
  | @past _ _ body later _ _ _ _ passed _ ih =>
    obtain ⟨c₁, first⟩ := Execution.leads_of_runs passed (later.literal ++ rest) c
    obtain ⟨rest', c₂, others⟩ := ih rest c₁
    exact ⟨rest', c₂, first.trans others⟩

/-- A token that shifts the cursor is a move by that amount. -/
theorem instruction_of_shift {k : Token} (small : k.count ≤ maxRun) :
    shift k = 0 ∨ ∃ amount, k.instruction = .move amount ∧ amount.toInt = shift k := by
  rcases k with ⟨symbol, count, start, position⟩
  cases symbol with
  | right => exact .inr ⟨_, rfl, (toInt_count small).1⟩
  | left => exact .inr ⟨_, rfl, (toInt_count small).2⟩
  | _ => exact .inl rfl

/-- The run is calm if the execution stays on the tape and, where fragments are replaced, their cells are clear. -/
theorem calm_of_execution {o : Optimizations} {x : Outline} {m : Machine} {io : Streams} (regular : x.Regular)
    (stays : Execution.StaysOnTape (Execution.start x.literal m) io)
    (clear : o.idioms = true → ∀ opening closing body rest b,
      x.Reaches ⟨m.tape, io⟩ (.loop opening closing body rest) b → body.ClearFor b.tape) :
    x.Calm o ⟨m.tape, io⟩ := by
  intro y b reaches
  cases y with
  | done => trivial
  | loop opening closing body rest => exact fun idioms => clear idioms opening closing body rest b reaches
  | token k rest =>
    have small := (reaches.regular regular).token.1.small
    rcases instruction_of_shift small with still | ⟨amount, move, shifted⟩
    · show OnTape (b.tape.cursor + shift k)
      rw [still, Int.add_zero]
      exact b.tape.onTape_cursor
    · obtain ⟨rest', c, leads⟩ := leads_of_reaches reaches [] m.counters
      rw [List.append_nil] at leads
      show OnTape (b.tape.cursor + shift k)
      rw [← shifted]
      refine stays _ _ amount (rest.literal ++ rest') leads ?_
      rw [← move]
      rfl

end Outline

end TapeLang
