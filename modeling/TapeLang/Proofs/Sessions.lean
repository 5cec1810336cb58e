import TapeLang.Host.Session
import TapeLang.Proofs.Outcomes
import TapeLang.Proofs.Stages

/-!
# Sessions

In a session every call is answered from the world that the calls before it left behind.  The streams stay where they
lead from the start (`channels_answerWith`), so what is written always arrives: a session is gated like any run of the
command line, and it is never cut off (`session_is_gated`, `exit_session`).

A session that compiles nothing leaves the files as they were.  What it leaves on the two outputs is given by
`refused_session`, `emitting_session` and `interpreting_session`.
-/

namespace TapeLang.CommandLine

variable {σ α : Type} {w last : σ}

/-- Calls that are answered one after the other, each in the state that the one before left. -/
inductive Served (answer : (c : Call) → StateM σ c.Answer) : σ → List Exchange → σ → Prop
  | nothing (w : σ) : Served answer w [] w
  | exchange {w last : σ} {exchanges : List Exchange} (c : Call)
      (later : Served answer (answer c w).2 exchanges last) :
      Served answer w (⟨c, (answer c w).1⟩ :: exchanges) last

theorem served_perform (answer : (c : Call) → StateM σ c.Answer) (s : Script α) (w : σ) :
    ∃ exchanges, s.Runs exchanges (s.perform answer w).1 ∧ Served answer w exchanges (s.perform answer w).2 := by
  induction s generalizing w with
  | done value => exact ⟨[], .done value, .nothing w⟩
  | call c next ih =>
    obtain ⟨exchanges, run, later⟩ := ih (answer c w).1 (answer c w).2
    exact ⟨_, .call _ run, .exchange c later⟩

/-- What every call keeps holds before each of them. -/
theorem Served.answered {answer : (c : Call) → StateM σ c.Answer} {P : σ → Prop} {exchanges : List Exchange}
    (h : Served answer w exchanges last) (keeps : ∀ c w, P w → P (answer c w).2) (start : P w) :
    P last ∧ ∀ e ∈ exchanges, ∃ w, P w ∧ e.answer = (answer e.call w).1 := by
  induction h with
  | nothing w => exact ⟨start, nofun⟩
  | @exchange w _ _ c later ih =>
    obtain ⟨finish, others⟩ := ih (keeps c w start)
    exact ⟨finish, List.forall_mem_cons.2 ⟨⟨w, start, rfl⟩, others⟩⟩

/-- Where all reports are written, a run ends with the exit code of a success or of a failure. -/
theorem Gated.exit {o : Options} {exchanges : List Exchange} {code : Nat} (h : Gated o exchanges code)
    (told : Told exchanges) : code = 0 ∨ code = 1 := by
  obtain ⟨source, rest, rfl, way⟩ := h
  have told : Told rest := fun text answer mem => told text answer (List.mem_cons_of_mem _ mem)
  split at way
  · exact .inr way.exit
  · rcases way with unlisted | ⟨-, used⟩
    · obtain ⟨e, rfl⟩ := unlisted.lost
      exact absurd told (not_told (List.mem_singleton_self _))
    · unfold Used at used
      split at used
      · exact .inl used.exit
      · split at used
        · obtain ⟨directory, made, built⟩ := used
          exact built.told.imp And.left And.left
        · obtain ⟨answer, interpreted⟩ := used
          cases answer with
          | error fault => exact .inr (interpreted.failed fault rfl).1
          | ok counters =>
            rcases interpreted.succeeded counters rfl with ⟨success, -⟩ | ⟨-, -, lost, -⟩
            · exact .inl success
            · exact absurd told lost

end TapeLang.CommandLine

namespace TapeLang.Host

open CommandLine

variable {w w' w'' : World} {c : Channel} {path : String} {bytes : List UInt8}

namespace World

/-- At most what waits to be read is another. -/
structure Beside (w w' : World) : Prop where
  files : w'.files = w.files
  channels : w'.channels = w.channels
  output : w'.output = w.output
  errors : w'.errors = w.errors

theorem Beside.refl (w : World) : Beside w w := ⟨rfl, rfl, rfl, rfl⟩

theorem Beside.trans (h : Beside w w') (h' : Beside w' w'') : Beside w w'' :=
  ⟨h'.files.trans h.files, h'.channels.trans h.channels, h'.output.trans h.output, h'.errors.trans h.errors⟩

theorem beside_leave (w : World) (c : Channel) (rest : List UInt8) : Beside w (w.leave c rest) := by
  cases c <;> exact ⟨rfl, rfl, rfl, rfl⟩

theorem beside_openToRead (h : w.openToRead path = .ok (w', c)) : Beside w w' := by
  obtain ⟨place, -, h⟩ := bind_eq_ok h
  split at h
  · cases h
    exact ⟨rfl, rfl, rfl, rfl⟩
  · cases h
  · obtain ⟨c, -, h⟩ := bind_eq_ok h
    cases h
    exact .refl w
  · cases h
    exact .refl w
  · cases h
  · cases h

theorem beside_readFile (h : w.readFile path = .ok (bytes, w')) : Beside w w' := by
  obtain ⟨place, -, h⟩ := bind_eq_ok h
  split at h
  · cases h
    exact .refl w
  · obtain ⟨⟨opened, c⟩, opens, h⟩ := bind_eq_ok h
    cases h
    exact (beside_openToRead opens).trans (beside_leave opened c [])

/-! ### Where the streams lead -/

theorem channels_send (h : w.send bytes c = .ok w') : w'.channels = w.channels := by
  unfold send at h
  split at h
  · cases h
    rfl
  · cases h
    rfl
  · cases h
    rfl
  · split at h
    · cases h
      rfl
    · cases h
      rfl
  · cases h
    rfl
  · cases h
  · cases h

theorem channels_write {number : Nat} (h : w.write number bytes = .ok w') : w'.channels = w.channels := by
  unfold write at h
  split at h
  · exact channels_send h
  · cases h

theorem channels_openToWrite {append : Bool} (h : w.openToWrite path append = .ok (w', c)) :
    w'.channels = w.channels := by
  obtain ⟨place, -, h⟩ := bind_eq_ok h
  split at h
  · obtain ⟨c, -, h⟩ := bind_eq_ok h
    cases h
    rfl
  · obtain ⟨files, -, h⟩ := bind_eq_ok h
    cases h
    rfl
  · obtain ⟨files, -, h⟩ := bind_eq_ok h
    cases h
    rfl

theorem channels_writeFile (h : w.writeFile path bytes = .ok w') : w'.channels = w.channels := by
  obtain ⟨⟨opened, c⟩, opens, h⟩ := bind_eq_ok h
  exact (channels_send h).trans (channels_openToWrite opens)

theorem channels_change {f : Files → Path → Except OsError Files} (h : w.change f = .ok w') :
    w'.channels = w.channels := by
  obtain ⟨files, -, rfl⟩ := map_eq_ok h
  rfl

end World

/-- A started program leaves the streams of its starter where they lead. -/
def Starter.KeepsChannels (start : Starter) : Prop :=
  ∀ w command arguments status w', start w command arguments = .ok (status, w') → w'.channels = w.channels

theorem Shell.keepsChannels_start (exec : Shell.Exec) : Starter.KeepsChannels (Shell.start exec) := by
  intro w command arguments status w' h
  obtain ⟨⟨status, other⟩, -, same⟩ := map_eq_ok h
  cases same
  rfl

theorem channels_changing (f : Files → Path → Except OsError Files) (w : World) :
    (changing f w).2.channels = w.channels := by
  unfold changing
  split
  · next changed => exact World.channels_change changed
  · rfl

theorem channels_writing (number : Nat) (bytes : List UInt8) (w : World) :
    (writing number bytes w).2.channels = w.channels := by
  unfold writing
  split
  · next written => exact World.channels_write written
  · rfl
  · rfl

/-- However an interpreted program ends, the world is the one with its output. -/
theorem interpreting_snd (p : Program) (w : World) :
    (interpreting p w).2 =
      (writing 1 (p.execute .fresh (.ofInput (w.waiting ((w.channels.lookup 0).getD .null)))).streams.written.toList
        (w.leave ((w.channels.lookup 0).getD .null)
          (p.execute .fresh (.ofInput (w.waiting ((w.channels.lookup 0).getD .null)))).streams.input)).2 := by
  unfold interpreting
  dsimp only
  split
  next written after arrived =>
    rw [arrived]
    split <;> rfl

theorem channels_interpreting (p : Program) (w : World) : (interpreting p w).2.channels = w.channels := by
  rw [interpreting_snd, channels_writing]
  exact (World.beside_leave w _ _).channels

theorem channels_answerWith {start : Starter} (keeps : start.KeepsChannels) (c : Call) (w : World) :
    (answerWith start c w).2.channels = w.channels := by
  cases c with
  | readFile path =>
    unfold answerWith
    dsimp only
    split
    · next read => exact (World.beside_readFile read).channels
    · rfl
  | temporaryDirectory => rfl
  | makeDirectories path => exact channels_changing _ w
  | writeFile path text =>
    unfold answerWith
    dsimp only
    split
    · next written => exact World.channels_writeFile written
    · rfl
  | start command arguments =>
    unfold answerWith
    dsimp only
    split
    · next started => exact keeps _ _ _ _ _ started
    · rfl
  | removeTree path => exact channels_changing _ w
  | interpret p => exact channels_interpreting p w
  | printOut text => exact channels_writing 1 _ w
  | printError text => exact channels_writing 2 _ w

/-! ### Sessions are gated -/

/-- How programs are started in a session. -/
abbrev starter : Starter := Shell.start (Shell.exec Shell.maxDepth)

variable {start : Starter}

/-- What is printed or reported where the streams lead to the outputs is written. -/
theorem writing_output (standard : w.channels = World.standardChannels) (bytes : List UInt8) :
    writing 1 bytes w = (.ok (), { w with output := w.output ++ bytes.toArray }) := by
  have leads : w.channels.lookup 1 = some .output := by rw [standard]; rfl
  rw [writing, World.write, leads]
  rfl

theorem writing_errors (standard : w.channels = World.standardChannels) (bytes : List UInt8) :
    writing 2 bytes w = (.ok (), { w with errors := w.errors ++ bytes.toArray }) := by
  have leads : w.channels.lookup 2 = some .errors := by rw [standard]; rfl
  rw [writing, World.write, leads]
  rfl

variable {arguments : List String} {o : Options}

/-- Whatever is given to a session, its stages are gated, and all that it reports is written. -/
theorem session_is_gated (parsed : Options.parse arguments = .ok o) (given : List Given) (input : List UInt8) :
    ∃ exchanges, Served (answerWith starter) (World.ofGiven given input) exchanges
        (session arguments given input).2 ∧
      Told exchanges ∧ Gated o exchanges (session arguments given input).1 := by
  have script : ofArguments arguments = run o := by simp [ofArguments, parsed]
  obtain ⟨exchanges, runs, served⟩ :=
    served_perform (answerWith starter) (run o) (World.ofGiven given input)
  have keeps (c : Call) (w : World) (standard : w.channels = World.standardChannels) :
      (answerWith starter c w).2.channels = World.standardChannels :=
    (channels_answerWith (Shell.keepsChannels_start _) c w).trans standard
  obtain ⟨-, answered⟩ := served.answered keeps rfl
  have told : Told exchanges := by
    intro text answer mem
    obtain ⟨w, standard, same⟩ := answered _ mem
    exact same.trans (congrArg Prod.fst (writing_errors standard _))
  have printable : Printable exchanges := by
    intro text answer mem
    obtain ⟨w, standard, same⟩ := answered _ mem
    exact same.trans (congrArg Prod.fst (writing_output standard _))
  unfold session commandLine
  rw [script]
  exact ⟨exchanges, served, told, gated_run printable runs⟩

theorem exit_session (parsed : Options.parse arguments = .ok o) (given : List Given) (input : List UInt8) :
    (session arguments given input).1 = 0 ∨ (session arguments given input).1 = 1 := by
  obtain ⟨exchanges, -, told, gated⟩ := session_is_gated parsed given input
  exact gated.exit told

/-! ### What a session leaves behind -/

/-- The world with a text added to what was reported. -/
def World.tell (w : World) (text : String) : World :=
  { w with errors := w.errors ++ (World.bytes text).toArray }

/-- The world with a text added to what was reported, if there is one. -/
def World.tellAll (w : World) (texts : List String) : World := texts.foldl World.tell w

@[simp] theorem World.tell_empty (w : World) : w.tell "" = w := by simp [World.tell, World.bytes]

theorem World.tellAll_reportOf (w : World) (text : String) : w.tellAll (reportOf text) = w.tell text := by
  unfold reportOf
  split
  · next empty =>
    rw [String.isEmpty_iff.1 empty, World.tell_empty]
    rfl
  · rfl

/-- Reports are added to those before, and to nothing else. -/
theorem World.tellAll_eq (w : World) (texts : List String) :
    w.tellAll texts = { w with errors := w.errors ++ (texts.flatMap World.bytes).toArray } := by
  induction texts generalizing w with
  | nil => simp [World.tellAll]
  | cons text texts ih =>
    show (w.tell text).tellAll texts = _
    rw [ih]
    simp [World.tell]

theorem perform_call {α : Type} {c : Call} {a : c.Answer} (next : c.Answer → Script α)
    (answered : answerWith start c w = (a, w')) :
    (Script.call c next).perform (answerWith start) w = (next a).perform (answerWith start) w' := by
  show (next (answerWith start c w).1).perform (answerWith start) (answerWith start c w).2 = _
  rw [answered]

theorem perform_report (standard : w.channels = World.standardChannels) (text : String) (next : Script Nat) :
    (report text next).perform (answerWith start) w = next.perform (answerWith start) (w.tell text) := by
  unfold report
  split
  · next empty =>
    rw [String.isEmpty_iff.1 empty, World.tell_empty]
  · exact perform_call (c := .printError text) _ (writing_errors standard _)

theorem perform_fail (standard : w.channels = World.standardChannels) (f : Failure) :
    (fail f).perform (answerWith start) w = (1, w.tell f.message) :=
  perform_call (c := .printError f.message) _ (writing_errors standard _)

theorem perform_emit (standard : w.channels = World.standardChannels) (text : String) :
    (emit text).perform (answerWith start) w = (0, { w with output := w.output ++ (World.bytes text).toArray }) :=
  perform_call (c := .printOut text) _ (writing_output standard _)

variable {p : Program}

theorem interpreting_standard (standard : w.channels = World.standardChannels) (p : Program) :
    interpreting p w =
      let r := p.execute .fresh (.ofInput w.input)
      (match r.fault? with | some f => .error f | none => .ok r.state.machine.counters,
        { w with input := r.streams.input, output := w.output ++ r.streams.written }) := by
  have leads : w.channels.lookup 0 = some .input := by rw [standard]; rfl
  unfold interpreting
  rw [leads]
  dsimp only [Option.getD, World.waiting, World.leave]
  generalize p.execute .fresh (.ofInput w.input) = r
  have arrived := writing_output (w := { w with input := r.streams.input }) standard r.streams.written.toList
  rw [arrived]
  cases r.fault? <;> rfl

/-- What is reported of an interpreted program when it has come to this end. -/
def reportsOf (o : Options) (r : Outcome Execution.State) : List String :=
  match r.fault? with
  | some f => [Failure.message ⟨f.runMessage, some f.description⟩]
  | none => o.statistics r.state.machine.counters

theorem perform_interpret (standard : w.channels = World.standardChannels) :
    (interpret o p).perform (answerWith start) w =
      let r := p.execute .fresh (.ofInput w.input)
      let after := { w with input := r.streams.input, output := w.output ++ r.streams.written }
      (if r.fault? = none then 0 else 1, after.tellAll (reportsOf o r)) := by
  have answered := interpreting_standard standard p
  dsimp only at answered ⊢
  generalize p.execute .fresh (.ofInput w.input) = r at answered ⊢
  have behind : World.channels { w with input := r.streams.input, output := w.output ++ r.streams.written }
      = World.standardChannels := standard
  generalize ({ w with input := r.streams.input, output := w.output ++ r.streams.written } : World) = after
    at answered behind ⊢
  unfold reportsOf Options.statistics
  cases fault : r.fault? with
  | some f =>
    rw [fault] at answered
    rw [if_neg (Option.some_ne_none f)]
    exact (perform_call (c := .interpret p) _ answered).trans (perform_fail behind _)
  | none =>
    rw [fault] at answered
    refine (perform_call (c := .interpret p) _ answered).trans ?_
    show Script.perform (answerWith start) (if o.stats then _ else _) _ = _
    split
    · rw [perform_report behind, perform_report (by exact behind)]
      rfl
    · rfl

variable {given : List Given} {input source : List UInt8}

/-- What is done with the answer to the first call. -/
def proceed (o : Options) : Except OsError (List UInt8) → Script Nat
  | .error e => fail ⟨s!"could not read {o.file}", some e.message⟩
  | .ok source =>
    match Program.ofSource o.optimizations source with
    | .error e => fail ⟨s!"could not translate {o.file}", some e.message⟩
    | .ok p => listAndCarryOn o p

theorem session_of_reading {content : Except OsError (List UInt8)} (parsed : Options.parse arguments = .ok o)
    (answered : answerWith starter (.readFile o.file) (World.ofGiven given input) = (content, w)) :
    session arguments given input = (proceed o content).perform (answerWith starter) w := by
  have script : ofArguments arguments = run o := by simp [ofArguments, parsed]
  unfold session commandLine
  rw [script]
  refine (perform_call (c := .readFile o.file) _ answered).trans ?_
  cases content <;> rfl

/-- A file that can be read and translated is put to use behind its listing. -/
theorem session_of_program (parsed : Options.parse arguments = .ok o)
    (read : (World.ofGiven given input).readFile o.file = .ok (source, w))
    (translated : Program.ofSource o.optimizations source = .ok p) :
    session arguments given input = (carryOn o p).perform (answerWith starter) (w.tellAll (o.listing p)) := by
  have answered : answerWith starter (.readFile o.file) (World.ofGiven given input) = (.ok source, w) := by
    simp only [answerWith, read]
  rw [session_of_reading parsed answered, proceed, translated]
  dsimp only [listAndCarryOn, Options.listing]
  split
  · rw [perform_report (World.beside_readFile read).channels, World.tellAll_reportOf]
  · rfl

/-- Where there is no program, the reason is all that is said. -/
theorem session_of_refusal (parsed : Options.parse arguments = .ok o)
    (missing : ∀ source w p, (World.ofGiven given input).readFile o.file = .ok (source, w) →
      Program.ofSource o.optimizations source ≠ .ok p) :
    ∃ (w : World) (f : Failure), World.Beside (World.ofGiven given input) w ∧
      session arguments given input = (1, w.tell f.message) := by
  cases read : (World.ofGiven given input).readFile o.file with
  | error e =>
    have answered : answerWith starter (.readFile o.file) (World.ofGiven given input)
        = (.error e, World.ofGiven given input) := by
      simp only [answerWith, read]
    exact ⟨_, _, .refl _, (session_of_reading parsed answered).trans (perform_fail rfl _)⟩
  | ok reading =>
    obtain ⟨source, w⟩ := reading
    have answered : answerWith starter (.readFile o.file) (World.ofGiven given input) = (.ok source, w) := by
      simp only [answerWith, read]
    have beside := World.beside_readFile read
    cases translated : Program.ofSource o.optimizations source with
    | ok p => exact absurd translated (missing source w p read)
    | error e =>
      refine ⟨w, ⟨s!"could not translate {o.file}", some e.message⟩, beside, ?_⟩
      rw [session_of_reading parsed answered, proceed, translated]
      exact perform_fail beside.channels _

theorem created_eq_nil (same : w.files = (World.ofGiven given input).files) : created given w = [] := by
  have same : w.files = (World.ofGiven given []).files := same
  unfold created
  rw [same]
  refine List.filter_eq_nil_iff.2 fun file mem => ?_
  simpa using mem

/-- A session that prints C leaves the text behind and nothing else. -/
theorem emitting_session (parsed : Options.parse arguments = .ok o)
    (read : (World.ofGiven given input).readFile o.file = .ok (source, w))
    (translated : Program.ofSource o.optimizations source = .ok p) (emits : o.emitC = true) :
    (session arguments given input).1 = 0 ∧
      (session arguments given input).2.output.toList = World.bytes p.toC.render ∧
      (session arguments given input).2.errors.toList = (o.listing p).flatMap World.bytes ∧
      created given (session arguments given input).2 = [] := by
  have beside := World.beside_readFile read
  rw [session_of_program parsed read translated, carryOn, if_pos emits, World.tellAll_eq,
    perform_emit (by exact beside.channels)]
  refine ⟨rfl, ?_, ?_, created_eq_nil beside.files⟩
  · simp [beside.output, World.ofGiven, World.initial]
  · simp [beside.errors, World.ofGiven, World.initial]

/-- A session that interprets leaves behind what the program wrote, and its exit code tells how the program ended. -/
theorem interpreting_session (parsed : Options.parse arguments = .ok o)
    (read : (World.ofGiven given input).readFile o.file = .ok (source, w))
    (translated : Program.ofSource o.optimizations source = .ok p)
    (quiet : o.emitC = false) (here : o.native = false) :
    let r := p.execute .fresh (.ofInput w.input)
    ((session arguments given input).1 = 0 ↔ r.fault? = none) ∧
      (session arguments given input).2.output = r.streams.written ∧
      (session arguments given input).2.input = r.streams.input ∧
      (session arguments given input).2.errors.toList = (o.listing p ++ reportsOf o r).flatMap World.bytes ∧
      created given (session arguments given input).2 = [] := by
  have beside := World.beside_readFile read
  rw [session_of_program parsed read translated, carryOn, if_neg (by simp [quiet]), if_neg (by simp [here]),
    World.tellAll_eq, perform_interpret (by exact beside.channels)]
  dsimp only
  rw [World.tellAll_eq]
  refine ⟨by split <;> simp [*], ?_, rfl, ?_, created_eq_nil beside.files⟩
  · simp [beside.output, World.ofGiven, World.initial]
  · simp [beside.errors, World.ofGiven, World.initial]

/-- A session whose file cannot be read or translated writes nothing but the reason. -/
theorem refused_session (parsed : Options.parse arguments = .ok o)
    (missing : ∀ source w p, (World.ofGiven given input).readFile o.file = .ok (source, w) →
      Program.ofSource o.optimizations source ≠ .ok p) :
    (session arguments given input).1 = 1 ∧ (session arguments given input).2.output = #[] ∧
      (∃ f : Failure, (session arguments given input).2.errors.toList = World.bytes f.message) ∧
      created given (session arguments given input).2 = [] := by
  obtain ⟨w, f, beside, ends⟩ := session_of_refusal parsed missing
  rw [ends]
  refine ⟨rfl, beside.output, ⟨f, ?_⟩, created_eq_nil beside.files⟩
  simp [World.tell, beside.errors, World.ofGiven, World.initial]

end TapeLang.Host
