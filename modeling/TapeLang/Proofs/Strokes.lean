import TapeLang.C.Emit
import TapeLang.C.Printer
import TapeLang.Proofs.TextLines

/-!
# Writing with a depth counter

A file can be written line by line by a pen that only knows how deep it is.  It goes deeper behind a line that opens a
block and comes back before the line that closes it, and it must not come back from the outermost level.

Written in this way a statement leaves the depth as it was, stays at or below the level at which it started, and gives
the lines of its tree (`writes_strokes`).  So no program makes the pen come back too far (`Pen.strokes?_eq`).

Every instruction has its template of strokes, and the statements made of it are written in just these strokes
(`strokes_instruction`).
-/

namespace TapeLang

namespace Line

theorem label_empty (ls : List Line) : label "" ls = ls := by
  cases ls with
  | nil => rfl
  | cons l ls => rw [label, String.empty_append]

theorem label_append (a b : String) (ls : List Line) : label (a ++ b) ls = label a (label b ls) := by
  cases ls with
  | nil => rfl
  | cons l ls => rw [label, label, label, String.append_assoc]

end Line

namespace C

/-- What a pen does next. -/
inductive Stroke
  /-- Writes a line. -/
  | line (text : String)
  /-- Writes a line and goes one level deeper. -/
  | enter (header : String)
  /-- Comes back one level and writes the line that closes it. -/
  | leave
deriving DecidableEq, Repr

structure Pen where
  text : String
  depth : Nat
deriving DecidableEq, Repr

namespace Pen

def write (pen : Pen) (text : String) : Pen := { pen with text := pen.text ++ Line.render ⟨pen.depth, text⟩ }

/-- There is no coming back from the outermost level. -/
def stroke? (pen : Pen) : Stroke → Option Pen
  | .line text => some (pen.write text)
  | .enter header => some { pen.write header with depth := pen.depth + 1 }
  | .leave =>
    match pen.depth with
    | 0 => none
    | depth + 1 => some (write { pen with depth := depth } "\x7d")

def strokes? (pen : Pen) : List Stroke → Option Pen
  | [] => some pen
  | k :: rest => (pen.stroke? k).bind fun pen => pen.strokes? rest

end Pen

mutual

/-- How a statement is written behind a label. -/
def Stmt.strokes : Stmt → String → List Stroke
  | .ifThen test body, label => body.strokes (label ++ Stmt.text (.ifThen test body))
  | .whileDo test body, label => body.strokes (label ++ Stmt.text (.whileDo test body))
  | .countDown name body, label => body.strokes (label ++ Stmt.text (.countDown name body))
  | .block body, label => .enter (label ++ "\x7b") :: (strokesOfAll body ++ [.leave])
  | s, label => [.line (label ++ s.text)]

def strokesOfAll : List Stmt → List Stroke
  | [] => []
  | s :: rest => s.strokes "" ++ strokesOfAll rest

end

namespace Stroke

/-- The depth behind a stroke. -/
def next : Stroke → Nat → Nat
  | line _, depth => depth
  | enter _, depth => depth + 1
  | leave, depth => depth - 1

/-- The line that a stroke writes. -/
def lineAt : Stroke → Nat → Line
  | line text, depth => ⟨depth, text⟩
  | enter header, depth => ⟨depth, header⟩
  | leave, depth => ⟨depth - 1, "\x7d"⟩

end Stroke

def depthAfter : Nat → List Stroke → Nat
  | depth, [] => depth
  | depth, k :: rest => depthAfter (k.next depth) rest

/-- The lines that some strokes write. -/
def linesFrom : Nat → List Stroke → List Line
  | _, [] => []
  | depth, k :: rest => k.lineAt depth :: linesFrom (k.next depth) rest

/-- Wherever the strokes come back, they stand deeper than `low`. -/
def Within (low : Nat) : Nat → List Stroke → Prop
  | _, [] => True
  | depth, k :: rest => (k = .leave → low < depth) ∧ Within low (k.next depth) rest

variable {low depth : Nat} {k : Stroke} {a b ss : List Stroke}

/-! ### Strokes one after the other -/

theorem depthAfter_append (depth : Nat) (a b : List Stroke) :
    depthAfter depth (a ++ b) = depthAfter (depthAfter depth a) b := by
  induction a generalizing depth with
  | nil => rfl
  | cons k a ih => exact ih _

theorem linesFrom_append (depth : Nat) (a b : List Stroke) :
    linesFrom depth (a ++ b) = linesFrom depth a ++ linesFrom (depthAfter depth a) b := by
  induction a generalizing depth with
  | nil => rfl
  | cons k a ih => exact congrArg _ (ih _)

theorem within_append : Within low depth (a ++ b) ↔ Within low depth a ∧ Within low (depthAfter depth a) b := by
  induction a generalizing depth with
  | nil => exact (true_and _).to_iff.symm
  | cons k a ih => exact (and_congr_right fun _ => ih).trans and_assoc.symm

theorem le_next (allowed : k = .leave → low < depth) (le : low ≤ depth) : low ≤ k.next depth := by
  cases k with
  | line text => exact le
  | enter header => exact Nat.le_succ_of_le le
  | leave => exact Nat.le_sub_one_of_lt (allowed rfl)

theorem le_depthAfter (h : Within low depth ss) (le : low ≤ depth) : low ≤ depthAfter depth ss := by
  induction ss generalizing depth with
  | nil => exact le
  | cons k ss ih => exact ih h.2 (le_next h.1 le)

/-- A line is written by one stroke. -/
theorem exists_split_of_linesFrom {before after : List Line} {l : Line}
    (h : linesFrom depth ss = before ++ l :: after) :
    ∃ a k b, ss = a ++ k :: b ∧ before = linesFrom depth a ∧ l = k.lineAt (depthAfter depth a) := by
  induction ss generalizing depth before with
  | nil =>
    have := congrArg List.length h
    simp [linesFrom] at this
  | cons k ss ih =>
    cases before with
    | nil =>
      obtain ⟨rfl, -⟩ := List.cons.inj h
      exact ⟨[], k, ss, rfl, rfl, rfl⟩
    | cons first before =>
      obtain ⟨rfl, later⟩ := List.cons.inj h
      obtain ⟨a, k', b, rfl, rfl, rfl⟩ := ih later
      exact ⟨k :: a, k', b, rfl, rfl, rfl⟩

namespace Pen

theorem stroke?_eq (pen : Pen) (allowed : k = .leave → low < pen.depth) :
    pen.stroke? k = some ⟨pen.text ++ (k.lineAt pen.depth).render, k.next pen.depth⟩ := by
  obtain ⟨text, depth⟩ := pen
  cases k with
  | line t => rfl
  | enter header => rfl
  | leave =>
    obtain ⟨outer, rfl⟩ := Nat.exists_eq_add_one.2 (Nat.zero_lt_of_lt (allowed rfl))
    rfl

/-- A pen that never comes back too far writes all the lines. -/
theorem strokes?_eq {pen : Pen} (h : Within low pen.depth ss) :
    pen.strokes? ss = some ⟨pen.text ++ Line.renderAll (linesFrom pen.depth ss), depthAfter pen.depth ss⟩ := by
  induction ss generalizing pen with
  | nil =>
    have nothing : Line.renderAll [] = "" := rfl
    rw [strokes?, linesFrom, nothing, String.append_empty]
    rfl
  | cons k ss ih =>
    rw [strokes?, pen.stroke?_eq h.1, Option.bind_some, ih h.2, linesFrom, Line.renderAll_cons, String.append_assoc]
    rfl

end Pen

/-! ### What statements write -/

/-- The strokes write these lines, at whatever depth they begin, and end where they began without ever going above
it. -/
structure Writes (ss : List Stroke) (lines : Nat → List Line) : Prop where
  depth : ∀ depth, depthAfter depth ss = depth
  within : ∀ low depth, low ≤ depth → Within low depth ss
  lines : ∀ depth, linesFrom depth ss = lines depth

namespace Writes

variable {lines lines' : Nat → List Line}

theorem nil : Writes [] fun _ => [] := ⟨fun _ => rfl, fun _ _ _ => trivial, fun _ => rfl⟩

theorem single (text : String) : Writes [.line text] fun depth => [⟨depth, text⟩] :=
  ⟨fun _ => rfl, fun _ _ _ => ⟨nofun, trivial⟩, fun _ => rfl⟩

theorem append (ha : Writes a lines) (hb : Writes b lines') :
    Writes (a ++ b) fun depth => lines depth ++ lines' depth := by
  refine ⟨fun depth => ?_, fun low depth le => ?_, fun depth => ?_⟩
  · rw [depthAfter_append, ha.depth, hb.depth]
  · rw [within_append, ha.depth]
    exact ⟨ha.within low depth le, hb.within low depth le⟩
  · rw [linesFrom_append, ha.depth, ha.lines, hb.lines]

theorem enclose (header : String) (h : Writes ss lines) :
    Writes (.enter header :: (ss ++ [.leave])) fun depth =>
      ⟨depth, header⟩ :: (lines (depth + 1) ++ [⟨depth, "\x7d"⟩]) := by
  refine ⟨fun depth => ?_, fun low depth le => ?_, fun depth => ?_⟩
  · rw [depthAfter, depthAfter_append, h.depth]
    rfl
  · rw [Within, within_append, h.depth]
    exact ⟨nofun, h.within low (depth + 1) (Nat.le_succ_of_le le), fun _ => Nat.lt_succ_of_le le, trivial⟩
  · rw [linesFrom, linesFrom_append, h.depth, h.lines]
    rfl

end Writes

mutual

/-- A statement is written as the lines of its tree. -/
theorem writes_strokes : (s : Stmt) → (label : String) →
    Writes (s.strokes label) fun depth => Line.label label (s.lines depth)
  | .ifThen test body, label => by
    simp only [Stmt.strokes, Stmt.lines, ← Line.label_append]
    exact writes_strokes body _
  | .whileDo test body, label => by
    simp only [Stmt.strokes, Stmt.lines, ← Line.label_append]
    exact writes_strokes body _
  | .countDown name body, label => by
    simp only [Stmt.strokes, Stmt.lines, ← Line.label_append]
    exact writes_strokes body _
  | .block body, label => by
    simp only [Stmt.strokes, Stmt.lines, Line.label]
    exact (writes_strokesOfAll body).enclose _
  | .declare _ _, label | .assign _ _, label | .addAssign _ _, label | .call _ _, label | .putchar _, label
  | .flush, label | .getchar _, label | .discard _, label | .ret _, label => .single _

theorem writes_strokesOfAll : (ss : List Stmt) → Writes (strokesOfAll ss) fun depth => linesOfAll depth ss
  | [] => .nil
  | s :: rest => by
    have first := writes_strokes s ""
    simp only [Line.label_empty] at first
    simp only [strokesOfAll, linesOfAll]
    exact first.append (writes_strokesOfAll rest)

end

end C

/-! ### What instructions write -/

section Templates

open C

/-- A block between its header and the line that closes it. -/
def C.enclosed (header : String) (inside : List Stroke) : List Stroke := .enter header :: (inside ++ [.leave])

/-- What is written for one entry of a weighted transfer. -/
def C.weightedStroke (e : Int8 × Int8) : Stroke :=
  .line ("cell_add(" ++ toString e.1.toInt ++ ", (uint8_t)(counter * " ++ toString e.2.toUInt8.toNat ++ "));")

/-- What is written for a closed form. -/
def ClosedForm.template : ClosedForm → List Stroke
  | .clear => [.line "tape[p] = 0;"]
  | .transferAdd target => [.line ("cell_add(" ++ toString target.toInt ++ ", tape[p]);"), .line "tape[p] = 0;"]
  | .transferSub target =>
    [.line ("cell_add(" ++ toString target.toInt ++ ", (uint8_t)-tape[p]);"), .line "tape[p] = 0;"]
  | .weighted entries =>
    .line "counter = tape[p];" ::
      entries.map weightedStroke
      ++ [.line "tape[p] = 0;"]
  | .multiply => enclosed "if (tape[p]) \x7b" [
      .line "uint8_t a = tape[p], b = cell_get(1), r = cell_get(2), t = cell_get(3);",
      .line "uint8_t m = (uint8_t)(b + t);",
      .line "cell_set(1, m);",
      .line "cell_set(2, (uint8_t)(r + b + (a - 1) * m));",
      .line "cell_set(3, 0);",
      .line "tape[p] = 0;"]
  | .exponent => enclosed "if (tape[p]) \x7b" [
      .line "uint8_t e = tape[p], base = cell_get(1), r = cell_get(2);",
      .line "while (e--) r = (uint8_t)(r * base);",
      .line "cell_set(2, r);",
      .line "cell_set(3, 0);",
      .line "cell_set(4, 0);",
      .line "tape[p] = 0;"]
  | .divide => enclosed "if (tape[p]) \x7b" [
      .line "unsigned n = tape[p], d = cell_get(1) ? cell_get(1) : 256;",
      .line "cell_set(1, (uint8_t)(d - n % d));",
      .line "cell_set(2, (uint8_t)(n % d));",
      .line "cell_set(3, (uint8_t)(n / d));",
      .line "tape[p] = 0;"]

mutual

/-- What is written for an instruction. -/
def Instruction.template : Instruction → List Stroke
  | .move amount => [.line ("move_by(" ++ toString amount.toInt ++ ");")]
  | .add delta offset =>
    if offset = 0 then [.line ("tape[p] += " ++ toString delta.toUInt8.toNat ++ ";")]
    else [.line ("cell_add(" ++ toString offset.toInt ++ ", " ++ toString delta.toUInt8.toNat ++ ");")]
  | .print => [.line "putchar(tape[p]);"]
  | .read => enclosed "\x7b" [
      .line "fflush(stdout);",
      .line "int c = getchar();",
      .line "if (c != EOF) tape[p] = (uint8_t)c;"]
  | .seek step => [.line ("while (tape[p]) move_by(" ++ toString step.toInt ++ ");")]
  | .closed form => form.template
  | .loop body => enclosed "while (tape[p]) \x7b" (Program.template body)
  | .block body => enclosed "\x7b" (Program.template body)

/-- The instructions are written one after the other. -/
def Program.template : List Instruction → List Stroke
  | [] => []
  | i :: rest => i.template ++ Program.template rest

end

namespace C

theorem text_number (n : Int) : (number n).text = toString n := by
  cases n <;> rfl

theorem strokesOfAll_append (a b : List Stmt) : strokesOfAll (a ++ b) = strokesOfAll a ++ strokesOfAll b := by
  induction a with
  | nil => rfl
  | cons s a ih => rw [List.cons_append, strokesOfAll, strokesOfAll, ih, List.append_assoc]

theorem strokes_cellAdd (offset : Int) (delta : Expr) :
    (cellAdd offset delta).strokes "" = [.line ("cell_add(" ++ toString offset ++ ", " ++ delta.text ++ ");")] := by
  rw [← text_number]
  show [Stroke.line ("" ++ ("cell_add" ++ "(" ++ ((number offset).text ++ ", " ++ delta.text) ++ ");"))] = _
  simp only [String.empty_append, String.append_assoc]
  rfl

theorem strokes_moveBy (amount : Int) (label : String) :
    (moveBy (number amount)).strokes label = [.line (label ++ ("move_by(" ++ toString amount ++ ");"))] := by
  rw [← text_number]
  rfl

theorem strokes_entries (entries : List (Int8 × Int8)) :
    strokesOfAll (entries.map fun e =>
        cellAdd e.1.toInt (.toByte (.paren (.binary .mul (.var "counter") (.lit e.2.toUInt8.toNat))))) =
      entries.map weightedStroke := by
  induction entries with
  | nil => rfl
  | cons e entries ih =>
    have counter : ", (uint8_t)(counter * " = ", " ++ "(uint8_t)" ++ "(" ++ "counter" ++ " " ++ "*" ++ " " := by
      decide
    have ends : "));" = ")" ++ ");" := by decide
    rw [List.map_cons, List.map_cons, strokesOfAll, ih, strokes_cellAdd, weightedStroke, counter, ends]
    simp only [Expr.text, Ty.text, Op.text, String.append_assoc]
    rfl

theorem strokes_closedForm (form : ClosedForm) : strokesOfAll (ofClosedForm form) = form.template := by
  cases form with
  | clear => decide
  | multiply => decide
  | exponent => decide
  | divide => decide
  | transferAdd target =>
    have cell : ", tape[p]);" = ", " ++ "tape[p]" ++ ");" := by decide
    rw [ofClosedForm, strokesOfAll, strokes_cellAdd, ClosedForm.template, cell]
    simp only [String.append_assoc]
    rfl
  | transferSub target =>
    have cell : ", (uint8_t)-tape[p]);" = ", " ++ "(uint8_t)-tape[p]" ++ ");" := by decide
    rw [ofClosedForm, strokesOfAll, strokes_cellAdd, ClosedForm.template, cell]
    simp only [String.append_assoc]
    rfl
  | weighted entries =>
    rw [ofClosedForm, transferStmts, List.cons_append, strokesOfAll, strokesOfAll_append, strokes_entries]
    rfl

mutual

theorem strokes_instruction : (i : Instruction) → strokesOfAll (ofInstruction i) = i.template
  | .move amount => by
    rw [ofInstruction, strokesOfAll, strokes_moveBy, Instruction.template, String.empty_append]
    rfl
  | .add delta offset => by
    rw [ofInstruction, Instruction.template]
    split
    · rfl
    · rw [strokesOfAll, strokes_cellAdd]
      rfl
  | .print => by decide
  | .read => by decide
  | .seek step => by
    have loop : "while (tape[p]) move_by(" = "while (tape[p]) " ++ "move_by(" := by decide
    rw [ofInstruction, Instruction.template, loop, strokesOfAll, Stmt.strokes, strokes_moveBy]
    simp only [String.append_assoc]
    rfl
  | .closed form => strokes_closedForm form
  | .loop body => by
    have inside := strokes_program body
    rw [ofInstruction, Instruction.template, strokesOfAll, Stmt.strokes, Stmt.strokes, inside]
    simp only [String.append_assoc, strokesOfAll, List.append_nil]
    rfl
  | .block body => by
    have inside := strokes_program body
    rw [ofInstruction, Instruction.template, strokesOfAll, Stmt.strokes, inside]
    simp only [strokesOfAll, List.append_nil]
    rfl

theorem strokes_program : (p : List Instruction) → strokesOfAll (ofProgram p) = Program.template p
  | [] => rfl
  | i :: rest => by
    rw [ofProgram, strokesOfAll_append, strokes_instruction i, strokes_program rest, Program.template]

end

/-- With the strokes of its template an instruction is written as the lines of its statements. -/
theorem writes_template (i : Instruction) : Writes i.template fun depth => linesOfAll depth (ofInstruction i) :=
  strokes_instruction i ▸ writes_strokesOfAll (ofInstruction i)

end C

end Templates

end TapeLang
