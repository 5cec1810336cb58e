import Mathlib.Data.List.Basic
import TapeLang.CommandLine.Run

/-!
# Stages of the command line

Reading, translating, writing C, compiling and running are done one after the other, and a stage is reached only if
the ones before it went well.  This holds however the system answers the calls, each in view of all that went before
(`stages_are_gated`); only what is printed is taken to be written.

To write a listing or statistics to standard error is a stage as well.  Where the listing cannot be written, nothing
is done with the program, not even what has no use for standard error (`unwritable_listing_stops_run`).

What a script does is a list of exchanges.  For the stages it is split in three: what is printed, what is reported on
standard error, and what is done to files, processes and the input.
-/

namespace TapeLang.CommandLine

/-- A call and its answer. -/
structure Exchange where
  call : Call
  answer : call.Answer

/-- How calls are answered.  An answer may depend on everything that was exchanged before. -/
abbrev Surroundings := List Exchange → (c : Call) → c.Answer

/-- Answers a call and notes the exchange. -/
def Surroundings.serve (world : Surroundings) (c : Call) : StateM (List Exchange) c.Answer := fun earlier =>
  (world earlier c, earlier ++ [⟨c, world earlier c⟩])

namespace Script

variable {α β : Type} {s : Script α} {f : α → Script β} {c : Call} {next : c.Answer → Script α}
  {exchanges : List Exchange} {a value : α} {b : β}

/-- With the right answers the script makes these exchanges, and then gives this value. -/
inductive Runs : Script α → List Exchange → α → Prop
  | done (value : α) : Runs (done value) [] value
  | call {c : Call} {next : c.Answer → Script α} {exchanges : List Exchange} {value : α} (answer : c.Answer)
      (later : Runs (next answer) exchanges value) : Runs (call c next) (⟨c, answer⟩ :: exchanges) value

theorem runs_perform (world : Surroundings) (s : Script α) (earlier : List Exchange) :
    ∃ exchanges value, (s.perform world.serve).run earlier = (value, earlier ++ exchanges) ∧
      s.Runs exchanges value ∧ ∀ e ∈ exchanges, ∃ before, e.answer = world before e.call := by
  induction s generalizing earlier with
  | done value => exact ⟨[], value, congrArg (Prod.mk value) (List.append_nil _).symm, .done value, nofun⟩
  | call c next ih =>
    obtain ⟨exchanges, value, later, run, answers⟩ := ih (world earlier c) (earlier ++ [⟨c, world earlier c⟩])
    refine ⟨⟨c, world earlier c⟩ :: exchanges, value, ?_, .call _ run, ?_⟩
    · rw [List.append_cons]
      exact later
    · exact List.forall_mem_cons.2 ⟨⟨earlier, rfl⟩, answers⟩

theorem Runs.ended (h : Runs (.done value) exchanges a) : exchanges = [] ∧ a = value := by
  cases h
  exact ⟨rfl, rfl⟩

theorem Runs.answered (h : Runs (.call c next) exchanges a) :
    ∃ answer later, exchanges = ⟨c, answer⟩ :: later ∧ Runs (next answer) later a := by
  cases h with
  | call answer later => exact ⟨answer, _, rfl, later⟩

/-- One script behind another one: the exchanges fall into those of both. -/
theorem Runs.split (h : (s.bind f).Runs exchanges b) :
    ∃ first a second, exchanges = first ++ second ∧ s.Runs first a ∧ (f a).Runs second b := by
  induction s generalizing exchanges with
  | done value => exact ⟨[], value, exchanges, rfl, .done value, h⟩
  | call c next ih =>
    obtain ⟨answer, later, rfl, run⟩ := h.answered
    obtain ⟨first, a, second, rfl, here, there⟩ := ih answer run
    exact ⟨⟨c, answer⟩ :: first, a, second, rfl, .call answer here, there⟩

end Script

open Script (Runs)

/-! ### What exchanges amount to -/

def Call.output? : Call → Option String
  | printOut text => some text
  | _ => none

def Call.report? : Call → Option String
  | printError text => some text
  | _ => none

/-- Files are made or removed, a process is started, or the input is handed on to be read. -/
def Call.acts : Call → Bool
  | makeDirectories _ | writeFile _ _ | removeTree _ | start _ _ | interpret _ => true
  | readFile _ | temporaryDirectory | printOut _ | printError _ => false

/-- The answer says that what was called for was done. -/
def Call.well : (c : Call) → c.Answer → Bool
  | makeDirectories _, answer | writeFile _ _, answer | removeTree _, answer | printOut _, answer
  | printError _, answer => answer.isOk
  | readFile _, answer => answer.isOk
  | interpret _, answer => answer.isOk
  | start _ _, .ok status => status.success
  | start _ _, .error _ => false
  | temporaryDirectory, _ => true

def Exchange.well (e : Exchange) : Bool := e.call.well e.answer

/-- The texts that the command line itself writes to standard output. -/
def printed (exchanges : List Exchange) : List String := exchanges.filterMap fun e => e.call.output?

/-- The texts for standard error. -/
def reported (exchanges : List Exchange) : List String := exchanges.filterMap fun e => e.call.report?

/-- Whatever was printed was written. -/
def Printable (exchanges : List Exchange) : Prop :=
  ∀ text answer, ⟨.printOut text, answer⟩ ∈ exchanges → answer = .ok ()

/-- Whatever was reported was written. -/
def Told (exchanges : List Exchange) : Prop :=
  ∀ text answer, ⟨.printError text, answer⟩ ∈ exchanges → answer = .ok ()

/-- What is done to files and processes, and with the input. -/
def actions (exchanges : List Exchange) : List Exchange := exchanges.filter fun e => e.call.acts

/-- What is done, printed and reported in some exchanges. -/
structure Amounts (exchanges done : List Exchange) (out err : List String) : Prop where
  done : actions exchanges = done
  out : printed exchanges = out
  err : reported exchanges = err

theorem Amounts.append {a b done done' : List Exchange} {out out' err err' : List String}
    (ha : Amounts a done out err) (hb : Amounts b done' out' err') :
    Amounts (a ++ b) (done ++ done') (out ++ out') (err ++ err') where
  done := by rw [← ha.done, ← hb.done, actions, actions, actions, List.filter_append]
  out := by rw [← ha.out, ← hb.out, printed, printed, printed, List.filterMap_append]
  err := by rw [← ha.err, ← hb.err, reported, reported, reported, List.filterMap_append]

theorem amounts_nil : Amounts [] [] [] [] := ⟨rfl, rfl, rfl⟩

theorem amounts_report (text : String) (answer : Except OsError Unit) :
    Amounts [⟨.printError text, answer⟩] [] [] [text] := ⟨rfl, rfl, rfl⟩

theorem Told.append {a b : List Exchange} (ha : Told a) (hb : Told b) : Told (a ++ b) := by
  intro text answer mem
  rcases List.mem_append.1 mem with mem | mem
  · exact ha text answer mem
  · exact hb text answer mem

theorem told_report (text : String) : Told [⟨.printError text, .ok ()⟩] := by
  intro _ answer mem
  cases List.mem_singleton.1 mem
  rfl

theorem not_told {text : String} {e : OsError} {exchanges : List Exchange}
    (lost : ⟨.printError text, .error e⟩ ∈ exchanges) : ¬ Told exchanges := fun told => nomatch told _ _ lost

theorem Call.quiet_of_acts {c : Call} (h : c.acts = true) : c.output? = none ∧ c.report? = none := by
  cases c with
  | printOut text => cases h
  | printError text => cases h
  | _ => exact ⟨rfl, rfl⟩

/-- What acts is neither printed nor reported. -/
theorem amounts_of_acts {exchanges : List Exchange} (h : ∀ e ∈ exchanges, e.call.acts = true) :
    Amounts exchanges exchanges [] [] where
  done := List.filter_eq_self.2 h
  out := List.filterMap_eq_nil_iff.2 fun e he => (Call.quiet_of_acts (h e he)).1
  err := List.filterMap_eq_nil_iff.2 fun e he => (Call.quiet_of_acts (h e he)).2

/-! ### Calls that depend on each other -/

/-- The calls are made one after the other, until one does not go well.  The last argument is whether all went
well. -/
inductive Staged : List Call → List Exchange → Bool → Prop
  | finished : Staged [] [] true
  | stopped {c : Call} {answer : c.Answer} (later : List Call) (failed : c.well answer = false) :
      Staged (c :: later) [⟨c, answer⟩] false
  | passed {c : Call} {answer : c.Answer} {later : List Call} {made : List Exchange} {ok : Bool}
      (went : c.well answer = true) (rest : Staged later made ok) : Staged (c :: later) (⟨c, answer⟩ :: made) ok

namespace Staged

variable {calls calls' : List Call} {made made' : List Exchange} {ok : Bool}

theorem append (h : Staged calls made true) (h' : Staged calls' made' ok) :
    Staged (calls ++ calls') (made ++ made') ok := by
  generalize all : true = whole at h
  induction h with
  | finished => exact h'
  | stopped later failed => cases all
  | passed went rest ih => exact .passed went (ih all)

theorem skip (h : Staged calls made false) (calls' : List Call) : Staged (calls ++ calls') made false := by
  generalize all : false = whole at h
  induction h with
  | finished => cases all
  | stopped later failed => exact .stopped _ failed
  | passed went rest ih => exact .passed went (ih all)

theorem calls_prefix (h : Staged calls made ok) : made.map Exchange.call <+: calls := by
  induction h with
  | finished => exact List.prefix_rfl
  | stopped later failed => exact ⟨later, rfl⟩
  | passed went rest ih => exact List.cons_prefix_cons.2 ⟨rfl, ih⟩

/-- What stands before a call in the order has been done, and went well. -/
theorem before {done after : List Exchange} {e : Exchange} (h : Staged calls made ok)
    (split : made = done ++ e :: after) :
    (∃ later, calls = done.map Exchange.call ++ e.call :: later) ∧ ∀ d ∈ done, d.well = true := by
  induction h generalizing done with
  | finished =>
    have := congrArg List.length split
    simp at this
  | stopped later failed =>
    cases done with
    | nil =>
      obtain ⟨rfl, -⟩ := List.cons.inj split
      exact ⟨⟨later, rfl⟩, nofun⟩
    | cons d done =>
      have := congrArg List.length split
      simp at this
  | passed went rest ih =>
    cases done with
    | nil =>
      obtain ⟨rfl, -⟩ := List.cons.inj split
      exact ⟨⟨_, rfl⟩, nofun⟩
    | cons d done =>
      obtain ⟨rfl, behind⟩ := List.cons.inj split
      obtain ⟨⟨later, rfl⟩, well⟩ := ih behind
      exact ⟨⟨later, rfl⟩, List.forall_mem_cons.2 ⟨went, well⟩⟩

/-- All went well if and only if the last call was made and went well. -/
theorem ok_iff {last : Call} (h : Staged (calls ++ [last]) made ok) (once : last ∉ calls) :
    ok = true ↔ ∃ e ∈ made, e.call = last ∧ e.well = true := by
  generalize all : calls ++ [last] = whole at h
  induction h generalizing calls with
  | finished =>
    have := congrArg List.length all
    simp at this
  | stopped later failed => simp [Exchange.well, failed]
  | passed went rest ih =>
    cases calls with
    | nil =>
      obtain ⟨rfl, rfl⟩ := List.cons.inj all
      cases rest
      simp [Exchange.well, went]
    | cons c calls =>
      obtain ⟨rfl, behind⟩ := List.cons.inj all
      rw [List.mem_cons, not_or] at once
      rw [ih once.2 behind]
      simp [Ne.symm once.1]

end Staged

/-! ### The compiler and what it makes -/

variable {o : Options} {p : Program} {directory text : String} {exchanges : List Exchange}

def compilation (o : Options) (directory : String) : Call :=
  .start o.compiler
    [inDirectory directory sourceName, o.level, "-o", inDirectory directory binaryName]

/-- The calls that bring a program to run, in their order. -/
def stages (o : Options) (directory text : String) : List Call :=
  [.makeDirectories directory, .writeFile (inDirectory directory sourceName) text, compilation o directory,
    .start (inDirectory directory binaryName) []]

/-- The native program was started and succeeded. -/
def succeeded : Except Failure ExitStatus → Bool
  | .ok status => status.success
  | .error _ => false

theorem staged_compile {result : Except Failure String} (h : (compile o directory text).Runs exchanges result) :
    Staged ((stages o directory text).take 3) exchanges result.isOk ∧
      ∀ binary, result = .ok binary → binary = inDirectory directory binaryName := by
  obtain ⟨made, behindFirst, rfl, first⟩ := h.answered
  cases made with
  | error e =>
    obtain ⟨rfl, rfl⟩ := first.ended
    exact ⟨.stopped _ rfl, nofun⟩
  | ok _ =>
    obtain ⟨written, behindSecond, rfl, second⟩ := first.answered
    cases written with
    | error e =>
      obtain ⟨rfl, rfl⟩ := second.ended
      exact ⟨.passed rfl (.stopped _ rfl), nofun⟩
    | ok _ =>
      obtain ⟨started, behindThird, rfl, third⟩ := second.answered
      cases started with
      | error e =>
        obtain ⟨rfl, rfl⟩ := third.ended
        exact ⟨.passed rfl (.passed rfl (.stopped _ rfl)), nofun⟩
      | ok status =>
        have third : Runs (if status.success = true then .done (.ok (inDirectory directory binaryName))
          else .done (.error _)) behindThird result := third
        cases success : status.success with
        | true =>
          rw [if_pos success] at third
          obtain ⟨rfl, rfl⟩ := third.ended
          exact ⟨.passed rfl (.passed rfl (.passed success .finished)), fun _ same => (Except.ok.inj same).symm⟩
        | false =>
          rw [success, if_neg Bool.false_ne_true] at third
          obtain ⟨rfl, rfl⟩ := third.ended
          exact ⟨.passed rfl (.passed rfl (.stopped _ success)), nofun⟩

theorem staged_runBinary {binary : String} {result : Except Failure ExitStatus}
    (h : (runBinary binary).Runs exchanges result) : Staged [.start binary []] exchanges (succeeded result) := by
  obtain ⟨answer, behind, rfl, run⟩ := h.answered
  cases answer with
  | error e =>
    obtain ⟨rfl, rfl⟩ := run.ended
    exact .stopped _ rfl
  | ok status =>
    obtain ⟨rfl, rfl⟩ := run.ended
    cases success : status.success with
    | true =>
      rw [succeeded, success]
      exact .passed success .finished
    | false =>
      rw [succeeded, success]
      exact .stopped _ success

theorem staged_compileAndRun {result : Except Failure ExitStatus}
    (h : (compileAndRun o directory text).Runs exchanges result) :
    Staged (stages o directory text) exchanges (succeeded result) := by
  obtain ⟨compiling, outcome, running, rfl, compiled, run⟩ := Runs.split (s := compile o directory text) h
  obtain ⟨staged, path⟩ := staged_compile compiled
  cases outcome with
  | error f =>
    obtain ⟨rfl, rfl⟩ := run.ended
    rw [List.append_nil]
    exact staged.skip [.start (inDirectory directory binaryName) []]
  | ok binary =>
    obtain rfl := path binary rfl
    exact staged.append (staged_runBinary run)

/-- A text is reported, unless there is nothing to be said. -/
def reportOf (text : String) : List String := if text.isEmpty then [] else [text]

/-- A report is written and the script goes on, or it is lost and the script is cut off. -/
theorem runs_report {next : Script Nat} {code : Nat} (h : (report text next).Runs exchanges code) :
    (∃ reports rest, exchanges = reports ++ rest ∧ Amounts reports [] [] (reportOf text) ∧ Told reports ∧
      (∀ t ∈ reportOf text, ⟨.printError t, .ok ()⟩ ∈ reports) ∧ next.Runs rest code) ∨
    ∃ e, reportOf text = [text] ∧ exchanges = [⟨.printError text, .error e⟩] ∧ code = cutOff := by
  unfold report at h
  unfold reportOf
  split at h
  · next empty =>
    rw [if_pos empty]
    exact .inl ⟨[], exchanges, rfl, amounts_nil, nofun, nofun, h⟩
  · next some =>
    rw [if_neg some]
    obtain ⟨answer, rest, rfl, run⟩ := h.answered
    cases answer with
    | ok _ => exact .inl ⟨_, rest, rfl, amounts_report text _, told_report text, by simp, run⟩
    | error e =>
      obtain ⟨rfl, rfl⟩ := run.ended
      exact .inr ⟨e, rfl, rfl, rfl⟩

theorem runs_fail {f : Failure} {code : Nat} (h : (fail f).Runs exchanges code) :
    Amounts exchanges [] [] [f.message] ∧ code = 1 := by
  obtain ⟨answer, behind, rfl, run⟩ := h.answered
  obtain ⟨rfl, rfl⟩ := run.ended
  exact ⟨amounts_report f.message answer, rfl⟩

/-- How a native run ends, when everything is tidied up. -/
def conclude : Except Failure ExitStatus → Script Nat
  | .error f => fail f
  | .ok status =>
    if status.success then .done 0
    else fail ⟨s!"native program exited with {status.text}", none⟩

theorem runs_conclude {result : Except Failure ExitStatus} {code : Nat} (h : (conclude result).Runs exchanges code) :
    ∃ told, Amounts exchanges [] [] told ∧ (succeeded result = true ∧ code = 0 ∧ told = [] ∨
      succeeded result = false ∧ code = 1 ∧ ∃ f : Failure, told = [f.message]) := by
  cases result with
  | error f =>
    obtain ⟨reports, rfl⟩ := runs_fail h
    exact ⟨_, reports, .inr ⟨rfl, rfl, f, rfl⟩⟩
  | ok status =>
    by_cases success : status.success = true
    · rw [conclude, if_pos success] at h
      obtain ⟨rfl, rfl⟩ := h.ended
      exact ⟨[], amounts_nil, .inl ⟨success, rfl, rfl⟩⟩
    · rw [conclude, if_neg success] at h
      obtain ⟨reports, rfl⟩ := runs_fail h
      exact ⟨_, reports, .inr ⟨Bool.eq_false_iff.2 success, rfl, _, rfl⟩⟩

/-- What is done for the directory before and after a native run.  One that is given stays, a temporary one is
removed. -/
inductive Around (o : Options) (directory : String) : List Exchange → List Exchange → Prop
  | given (choice : o.workDir = some directory) : Around o directory [] []
  | temporary (answer : Except OsError Unit) (choice : o.workDir = none) :
      Around o directory [⟨.temporaryDirectory, directory⟩] [⟨.removeTree directory, answer⟩]

theorem Around.amounts {before after : List Exchange} (h : Around o directory before after) :
    Amounts before [] [] [] ∧ Amounts after after [] [] := by
  cases h with
  | given choice => exact ⟨amounts_nil, amounts_nil⟩
  | temporary answer choice => exact ⟨⟨rfl, rfl, rfl⟩, ⟨rfl, rfl, rfl⟩⟩

theorem runs_native {code : Nat} (h : (native o text).Runs exchanges code) :
    ∃ directory before made result after ending, exchanges = before ++ made ++ after ++ ending ∧
      Around o directory before after ∧ (compileAndRun o directory text).Runs made result ∧
      (conclude result).Runs ending code := by
  rw [native] at h
  cases choice : o.workDir with
  | some directory =>
    rw [choice] at h
    obtain ⟨made, result, ending, rfl, run, conclusion⟩ := Runs.split (s := compileAndRun o directory text) h
    exact ⟨directory, [], made, result, [], ending, by simp, .given choice, run, conclusion⟩
  | none =>
    rw [choice] at h
    -- The outcome is looked at only behind the removal, so no outcome can skip it.
    obtain ⟨directory, behind, rfl, work⟩ := h.answered
    obtain ⟨made, result, rest, rfl, run, tidying⟩ := Runs.split (s := compileAndRun o directory text) work
    obtain ⟨answer, ending, rfl, conclusion⟩ := tidying.answered
    exact ⟨directory, _, made, result, _, ending, by simp, .temporary answer choice, run, conclusion⟩

/-! ### The ways through the command line -/

/-- What is reported before anything is done with a program. -/
def Options.listing (o : Options) (p : Program) : List String := if o.dumpListing then reportOf p.listing else []

/-- What is reported when a program has been interpreted. -/
def Options.statistics (o : Options) (counters : Counters) : List String :=
  if o.stats then [statisticsTitle, s!"{counters.table}\n"] else []

/-- The listing is asked for and cannot be written: nothing else is done. -/
structure Unlisted (o : Options) (p : Program) (exchanges : List Exchange) (code : Nat) : Prop where
  asked : o.dumpListing = true
  lost : ∃ e, exchanges = [⟨.printError p.listing, .error e⟩]
  exit : code = 101

/-- There is no program: that is reported and nothing else is done. -/
structure Refused (exchanges : List Exchange) (code : Nat) : Prop where
  exit : code = 1
  silent : printed exchanges = []
  idle : actions exchanges = []
  told : ∃ f : Failure, reported exchanges = [f.message]

/-- The program is printed as C and nothing else is done. -/
structure Emitted (o : Options) (p : Program) (exchanges : List Exchange) (code : Nat) : Prop where
  exit : code = 0
  text : printed exchanges = [p.toC.render]
  idle : actions exchanges = []
  told : reported exchanges = o.listing p

/-- The program is compiled and run in a directory.  The calls that were made for it are `made`. -/
structure Built (o : Options) (p : Program) (directory : String) (made exchanges : List Exchange) (code : Nat) :
    Prop where
  /-- The calls are made in their order, and a failure stops those behind it. -/
  staged : Staged (stages o directory p.toC.render) made (decide (code = 0))
  /-- The compiler is started only on the written text. -/
  written : ∀ before answer after, made = before ++ ⟨compilation o directory, answer⟩ :: after →
    ⟨.writeFile (inDirectory directory sourceName) p.toC.render, .ok ()⟩ ∈ before
  /-- The native program is started only if the compiler succeeded. -/
  compiled : ∀ before answer after, made = before ++ ⟨.start (inDirectory directory binaryName) [], answer⟩ :: after →
    ∃ status, status.success = true ∧ ⟨compilation o directory, .ok status⟩ ∈ before
  exit : code = 0 ↔ ∃ status, status.success = true ∧
    ⟨.start (inDirectory directory binaryName) [], .ok status⟩ ∈ made
  given : ∀ chosen, o.workDir = some chosen → directory = chosen ∧ actions exchanges = made
  /-- Whatever was made in it, a temporary directory is removed. -/
  temporary : o.workDir = none → ⟨.temporaryDirectory, directory⟩ ∈ exchanges ∧
    ∃ answer, actions exchanges = made ++ [⟨.removeTree directory, answer⟩]
  silent : printed exchanges = []
  told : code = 0 ∧ reported exchanges = o.listing p ∨
    code = 1 ∧ ∃ f : Failure, reported exchanges = o.listing p ++ [f.message]

/-- The program is interpreted, and nothing else is done.  Statistics are reported if they are asked for and the run
succeeds. -/
structure Interpreted (o : Options) (p : Program) (answer : Except Fault Counters) (exchanges : List Exchange)
    (code : Nat) : Prop where
  run : actions exchanges = [⟨.interpret p, answer⟩]
  silent : printed exchanges = []
  /-- Only statistics that cannot be written stand in the way of success. -/
  succeeded : ∀ counters, answer = .ok counters →
    code = 0 ∧ Told exchanges ∧ reported exchanges = o.listing p ++ o.statistics counters ∨
    code = 101 ∧ o.stats = true ∧ ¬ Told exchanges ∧ reported exchanges <+: o.listing p ++ o.statistics counters
  failed : ∀ fault, answer = .error fault → code = 1 ∧ reported exchanges =
    o.listing p ++ [Failure.message ⟨fault.runMessage, some fault.description⟩]

/-- The program that is made of what was read. -/
def Options.program? (o : Options) : Except OsError (List UInt8) → Option Program
  | .ok source => (Program.ofSource o.optimizations source).toOption
  | .error _ => none

/-- The program is put to the use that the options ask for. -/
def Used (o : Options) (p : Program) (exchanges : List Exchange) (code : Nat) : Prop :=
  if o.emitC then Emitted o p exchanges code
  else if o.native then ∃ directory made, Built o p directory made exchanges code
  else ∃ answer, Interpreted o p answer exchanges code

/-- A stage is reached only if those before it went well, and so is the listing one of them. -/
def Gated (o : Options) (exchanges : List Exchange) (code : Nat) : Prop :=
  ∃ source rest, exchanges = ⟨.readFile o.file, source⟩ :: rest ∧
    match o.program? source with
    | none => Refused rest code
    | some p => Unlisted o p rest code ∨
      (∀ text ∈ o.listing p, ⟨.printError text, .ok ()⟩ ∈ rest) ∧ Used o p rest code

/-- A stage is reached if those before it went well, whatever became of the listing. -/
def GatedBesidesListing (o : Options) (exchanges : List Exchange) (code : Nat) : Prop :=
  ∃ source rest, exchanges = ⟨.readFile o.file, source⟩ :: rest ∧
    match o.program? source with
    | none => Refused rest code
    | some p => Used o p rest code

theorem acts_of_mem_stages {c : Call} (h : c ∈ stages o directory text) : c.acts = true := by
  simp only [stages, List.mem_cons, List.not_mem_nil, or_false] at h
  rcases h with rfl | rfl | rfl | rfl <;> rfl

theorem eq_of_writeFile {e : Exchange} {path : String} (call : e.call = .writeFile path text) (well : e.well = true) :
    e = ⟨.writeFile path text, .ok ()⟩ := by
  obtain ⟨c, answer⟩ := e
  cases (call : c = _)
  cases answer with
  | error _ => cases well
  | ok _ => rfl

theorem eq_of_start {e : Exchange} {command : String} {arguments : List String}
    (call : e.call = .start command arguments) (well : e.well = true) :
    ∃ status, status.success = true ∧ e = ⟨.start command arguments, .ok status⟩ := by
  obtain ⟨c, answer⟩ := e
  cases (call : c = _)
  cases answer with
  | error _ => cases well
  | ok status => exact ⟨status, well, rfl⟩

section Native

variable {made before after : List Exchange} {ok : Bool}

theorem written_before {answer : (compilation o directory).Answer} (staged : Staged (stages o directory text) made ok)
    (split : made = before ++ ⟨compilation o directory, answer⟩ :: after) :
    ⟨.writeFile (inDirectory directory sourceName) text, .ok ()⟩ ∈ before := by
  obtain ⟨⟨later, calls⟩, well⟩ := staged.before split
  -- The call stands in one place of the order only, so what was made before it is known.
  have first : compilation o directory ∉
      [Call.makeDirectories directory, .writeFile (inDirectory directory sourceName) text] := by simp [compilation]
  have last : compilation o directory ∉ [Call.start (inDirectory directory binaryName) []] := by simp [compilation]
  obtain ⟨front, -⟩ := (List.append_cons_inj_of_notMem first last).1 calls
  have among : Call.writeFile (inDirectory directory sourceName) text ∈ before.map Exchange.call := front ▸ by simp
  obtain ⟨e, mem, call⟩ := List.mem_map.1 among
  rw [← eq_of_writeFile call (well e mem)]
  exact mem

theorem compiled_before {answer : (Call.start (inDirectory directory binaryName) []).Answer}
    (staged : Staged (stages o directory text) made ok)
    (split : made = before ++ ⟨.start (inDirectory directory binaryName) [], answer⟩ :: after) :
    ∃ status, status.success = true ∧ ⟨compilation o directory, .ok status⟩ ∈ before := by
  obtain ⟨⟨later, calls⟩, well⟩ := staged.before split
  have first : Call.start (inDirectory directory binaryName) [] ∉ (stages o directory text).take 3 := by
    simp [stages, compilation]
  obtain ⟨front, -⟩ := (List.append_cons_inj_of_notMem first List.not_mem_nil).1 calls
  have among : compilation o directory ∈ before.map Exchange.call := front ▸ by simp [stages]
  obtain ⟨e, mem, call⟩ := List.mem_map.1 among
  obtain ⟨status, success, rfl⟩ := eq_of_start call (well e mem)
  exact ⟨status, success, mem⟩

theorem ok_iff_started (staged : Staged (stages o directory text) made ok) :
    ok = true ↔ ∃ status, status.success = true ∧
      ⟨.start (inDirectory directory binaryName) [], .ok status⟩ ∈ made := by
  have first : Call.start (inDirectory directory binaryName) [] ∉ (stages o directory text).take 3 := by
    simp [stages, compilation]
  have staged : Staged ((stages o directory text).take 3 ++ [.start (inDirectory directory binaryName) []]) made ok :=
    staged
  rw [staged.ok_iff first]
  refine ⟨fun ⟨e, mem, call, well⟩ => ?_, fun ⟨status, success, mem⟩ => ⟨_, mem, rfl, success⟩⟩
  obtain ⟨status, success, rfl⟩ := eq_of_start call well
  exact ⟨status, success, mem⟩

end Native

variable {dumping : List Exchange} {code : Nat}

theorem built_native (listed : Amounts dumping [] [] (o.listing p))
    (h : (native o p.toC.render).Runs exchanges code) :
    ∃ directory made, Built o p directory made (dumping ++ exchanges) code := by
  obtain ⟨directory, before, made, result, after, ending, rfl, around, run, conclusion⟩ := runs_native h
  obtain ⟨told, ends, outcome⟩ := runs_conclude conclusion
  have staged := staged_compileAndRun run
  have acts : ∀ e ∈ made, e.call.acts = true := fun e he =>
    acts_of_mem_stages (staged.calls_prefix.subset (List.mem_map_of_mem he))
  have work := ((around.amounts.1.append (amounts_of_acts acts)).append around.amounts.2).append ends
  have whole := listed.append work
  simp only [List.nil_append, List.append_nil] at whole
  have exit : succeeded result = decide (code = 0) := by
    rcases outcome with ⟨success, rfl, -⟩ | ⟨failure, rfl, -⟩
    · exact success
    · exact failure
  rw [exit] at staged
  refine ⟨directory, made, staged, fun _ _ _ => written_before staged, fun _ _ _ => compiled_before staged,
    decide_eq_true_iff.symm.trans (ok_iff_started staged), ?_, ?_, whole.out, ?_⟩
  · intro chosen choice
    cases around with
    | given here =>
      rw [here, Option.some.injEq] at choice
      exact ⟨choice, whole.done.trans (List.append_nil made)⟩
    | temporary answer missing =>
      rw [missing] at choice
      cases choice
  · intro choice
    cases around with
    | given here =>
      rw [here] at choice
      cases choice
    | temporary answer missing => exact ⟨by simp, answer, whole.done⟩
  · rcases outcome with ⟨-, rfl, rfl⟩ | ⟨-, rfl, f, rfl⟩
    · exact .inl ⟨rfl, whole.err.trans (List.append_nil _)⟩
    · exact .inr ⟨rfl, f, whole.err⟩

theorem reportOf_line (text : String) : reportOf s!"{text}\n" = [s!"{text}\n"] := by
  refine if_neg ?_
  rw [String.isEmpty_iff, String.append_eq_empty_iff]
  exact fun empty => absurd empty.2 (by decide)

/-- What is reported behind a run, as far as it can be written. -/
theorem runs_statistics {counters : Counters}
    (h : Runs (if o.stats then report statisticsTitle (report s!"{counters.table}\n" (.done 0)) else .done 0)
      exchanges code) :
    ∃ told, Amounts exchanges [] [] told ∧ (code = 0 ∧ Told exchanges ∧ told = o.statistics counters ∨
      code = 101 ∧ o.stats = true ∧ ¬ Told exchanges ∧ told <+: o.statistics counters) := by
  unfold Options.statistics
  split at h
  · next asked =>
    rw [if_pos asked]
    rcases runs_report h with ⟨first, behind, rfl, title, told, -, h⟩ | ⟨e, -, rfl, rfl⟩
    · rcases runs_report h with ⟨second, rest, rfl, table, told', -, h⟩ | ⟨e, -, rfl, rfl⟩
      · obtain ⟨rfl, rfl⟩ := h.ended
        rw [reportOf_line] at table
        rw [List.append_nil]
        exact ⟨_, title.append table, .inl ⟨rfl, told.append told', rfl⟩⟩
      · have lost : ¬ Told (first ++ [⟨.printError s!"{counters.table}\n", .error e⟩]) :=
          not_told (List.mem_append_right _ (List.mem_singleton_self _))
        exact ⟨_, title.append (amounts_report _ _), .inr ⟨rfl, asked, lost, List.prefix_rfl⟩⟩
    · exact ⟨_, amounts_report _ _, .inr ⟨rfl, asked, not_told (List.mem_singleton_self _), ⟨_, rfl⟩⟩⟩
  · next unasked =>
    rw [if_neg unasked]
    obtain ⟨rfl, rfl⟩ := h.ended
    exact ⟨[], amounts_nil, .inl ⟨rfl, nofun, rfl⟩⟩

section Listed

variable (listed : Amounts dumping [] [] (o.listing p))
include listed

theorem interpreted_interpret (told : Told dumping) (h : (interpret o p).Runs exchanges code) :
    ∃ answer, Interpreted o p answer (dumping ++ exchanges) code := by
  obtain ⟨answer, behind, rfl, run⟩ := h.answered
  have here : Amounts [⟨.interpret p, answer⟩] [⟨.interpret p, answer⟩] [] [] := ⟨rfl, rfl, rfl⟩
  cases answer with
  | error fault =>
    obtain ⟨reports, rfl⟩ := runs_fail run
    have whole := listed.append (here.append reports)
    refine ⟨_, whole.done, whole.out, nofun, fun _ same => ?_⟩
    cases same
    exact ⟨rfl, whole.err⟩
  | ok counters =>
    obtain ⟨texts, reports, outcome⟩ := runs_statistics run
    have whole := listed.append (here.append reports)
    have silentRun : Told [⟨.interpret p, .ok counters⟩] := fun _ _ mem => nomatch List.mem_singleton.1 mem
    refine ⟨_, whole.done, whole.out, fun _ same => ?_, nofun⟩
    cases same
    rcases outcome with ⟨rfl, behindTold, rfl⟩ | ⟨rfl, asked, lost, part⟩
    · exact .inl ⟨rfl, told.append (silentRun.append behindTold), whole.err⟩
    · refine .inr ⟨rfl, asked, fun all => lost fun t a mem => all t a ?_, ?_⟩
      · exact List.mem_append_right _ (List.mem_cons_of_mem _ mem)
      · have reports : reported (dumping ++ ⟨.interpret p, .ok counters⟩ :: behind) = o.listing p ++ texts :=
          whole.err
        rw [reports]
        exact (List.prefix_append_right_inj _).2 part

theorem emitted_emit (printable : Printable exchanges) (h : (emit p.toC.render).Runs exchanges code) :
    Emitted o p (dumping ++ exchanges) code := by
  obtain ⟨answer, behind, rfl, run⟩ := h.answered
  obtain rfl := printable _ answer (by simp)
  obtain ⟨rfl, rfl⟩ := run.ended
  have print : Amounts [⟨.printOut p.toC.render, .ok ()⟩] [] [p.toC.render] [] := ⟨rfl, rfl, rfl⟩
  have whole := listed.append print
  exact ⟨rfl, whole.out, whole.done, whole.err.trans (List.append_nil _)⟩

/-- Behind its listing, a program is put to use. -/
theorem used_carryOn (told : Told dumping) (printable : Printable exchanges)
    (h : (carryOn o p).Runs exchanges code) : Used o p (dumping ++ exchanges) code := by
  unfold carryOn at h
  unfold Used
  split at h
  · next emits =>
    rw [if_pos emits]
    exact emitted_emit listed printable h
  · next emits =>
    rw [if_neg emits]
    split at h
    · next compiles =>
      rw [if_pos compiles]
      exact built_native listed h
    · next compiles =>
      rw [if_neg compiles]
      exact interpreted_interpret listed told h

end Listed

theorem refused_fail {f : Failure} (h : (fail f).Runs exchanges code) : Refused exchanges code := by
  obtain ⟨reports, rfl⟩ := runs_fail h
  exact ⟨rfl, reports.out, reports.done, f, reports.err⟩

/-- What is done with a program, its listing first. -/
def listAndCarryOn (o : Options) (p : Program) : Script Nat :=
  if o.dumpListing then report p.listing (carryOn o p) else carryOn o p

theorem gated_listAndCarryOn (printable : Printable exchanges) (h : (listAndCarryOn o p).Runs exchanges code) :
    Unlisted o p exchanges code ∨
      (∀ text ∈ o.listing p, ⟨.printError text, .ok ()⟩ ∈ exchanges) ∧ Used o p exchanges code := by
  unfold listAndCarryOn at h
  split at h
  · next asked =>
    have listing : o.listing p = reportOf p.listing := if_pos asked
    rcases runs_report h with ⟨dumping, rest, rfl, listed, told, written, run⟩ | ⟨e, -, rfl, rfl⟩
    · refine .inr ⟨?_, used_carryOn (listing ▸ listed) told ?_ run⟩
      · rw [listing]
        exact fun text mem => List.mem_append_left _ (written text mem)
      · exact fun t a mem => printable t a (List.mem_append_right _ mem)
    · exact .inl ⟨asked, ⟨e, rfl⟩, rfl⟩
  · next unasked =>
    have listing : o.listing p = [] := if_neg unasked
    have listed : Amounts [] [] [] (o.listing p) := listing ▸ amounts_nil
    exact .inr ⟨by simp [listing], used_carryOn listed nofun printable h⟩

theorem runs_run (h : (run o).Runs exchanges code) :
    ∃ source rest, exchanges = ⟨.readFile o.file, source⟩ :: rest ∧
      ((o.program? source = none ∧ ∃ f, (fail f).Runs rest code) ∨
        ∃ p, o.program? source = some p ∧ (listAndCarryOn o p).Runs rest code) := by
  obtain ⟨source, rest, rfl, run⟩ := h.answered
  refine ⟨source, rest, rfl, ?_⟩
  cases source with
  | error e => exact .inl ⟨rfl, _, run⟩
  | ok source =>
    simp only [Script.bind] at run
    rw [Options.program?]
    cases translated : Program.ofSource o.optimizations source with
    | error e =>
      rw [translated] at run
      exact .inl ⟨rfl, _, run⟩
    | ok p =>
      rw [translated] at run
      exact .inr ⟨p, rfl, run⟩

theorem gated_run (printable : Printable exchanges) (h : (run o).Runs exchanges code) : Gated o exchanges code := by
  obtain ⟨source, rest, rfl, ⟨missing, f, run⟩ | ⟨p, found, run⟩⟩ := runs_run h
  · refine ⟨source, rest, rfl, ?_⟩
    rw [missing]
    exact refused_fail run
  · refine ⟨source, rest, rfl, ?_⟩
    simp only [found]
    exact gated_listAndCarryOn (fun t a mem => printable t a (List.mem_cons_of_mem _ mem)) run

/-- Whatever is answered to the command line, its stages are gated, provided that what it prints is written. -/
theorem stages_are_gated (o : Options) (world : Surroundings)
    (printed : ∀ earlier text, world earlier (.printOut text) = .ok ()) :
    ∃ exchanges code, ((run o).perform world.serve).run [] = (code, exchanges) ∧ Gated o exchanges code := by
  obtain ⟨exchanges, code, ends, runs, answers⟩ := Script.runs_perform world (run o) []
  refine ⟨exchanges, code, ends, gated_run (fun text answer mem => ?_) runs⟩
  obtain ⟨before, same⟩ := answers _ mem
  exact same.trans (printed before text)

/-- A file is read, reports fare in one way, started programs end in one way, and nothing else goes wrong. -/
def Surroundings.steady (source : List UInt8) (told : Except OsError Unit) (status : ExitStatus) : Surroundings :=
  fun _ c =>
    match c with
    | .readFile _ => .ok source
    | .temporaryDirectory => "/tmp/build"
    | .makeDirectories _ => .ok ()
    | .writeFile _ _ => .ok ()
    | .removeTree _ => .ok ()
    | .start _ _ => .ok status
    | .interpret _ => .ok .zero
    | .printOut _ => .ok ()
    | .printError _ => told

theorem stages_are_gated_failing_compiler :
    let o : Options := ⟨"p.bf", false, true, "cc", "-O1", none, true, false, false, 0⟩
    let world := Surroundings.steady [43] (.ok ()) (.exited 1)
    (∀ earlier text, world earlier (.printOut text) = .ok ()) ∧
      ∃ exchanges code, ((run o).perform world.serve).run [] = (code, exchanges) ∧ Gated o exchanges code :=
  ⟨fun _ _ => rfl, stages_are_gated _ _ fun _ _ => rfl⟩

/-- C is to be printed, but the run is cut off before that, at a listing that cannot be written. -/
theorem unwritable_listing_stops_run :
    let o : Options := ⟨"p.bf", true, false, "cc", "-O1", none, true, false, false, 0⟩
    let world := Surroundings.steady [43] (.error .noSpace) (.exited 0)
    (∀ earlier text, world earlier (.printOut text) = .ok ()) ∧
      ∃ exchanges, ((run o).perform world.serve).run [] = (101, exchanges) ∧ printed exchanges = [] ∧
        ¬ GatedBesidesListing o exchanges 101 := by
  refine ⟨fun _ _ => rfl, [⟨.readFile "p.bf", .ok [43]⟩, ⟨.printError (Program.listing [.add 1 0]), .error .noSpace⟩],
    rfl, rfl, ?_⟩
  rintro ⟨source, rest, same, used⟩
  cases same
  have emitted : Emitted _ [.add 1 0] _ 101 := used
  exact absurd emitted.exit (by decide)

end TapeLang.CommandLine
