import TapeLang.Proofs.GeneratedText
import TapeLang.Proofs.Strokes

/-!
# Depth, indentation and braces

While a program is written as C, three things go along with each other: the counter of the pen, the indentation of its
lines and the braces that are open in the text (`program_is_written_in_step`).

For the pen and its lines this is a matter of strokes.  For the braces it rests on what the lines say: those of
legible statements hold no brace but the one that opens or closes a block (`proper_strokes`).
-/

namespace TapeLang

/-- The number of braces that a text opens and does not close. -/
def openBraces (text : List Char) : Int := text.count '\x7b' - text.count '\x7d'

namespace C

/-! ### Texts without braces -/

def isInline (c : Char) : Bool := c != '\x7b' && c != '\x7d' && c != '\n'

/-- No brace and no line feed. -/
def Inline (text : String) : Prop := text.toList.all isInline = true

/-- The first character is not a blank. -/
def Visible (text : String) : Prop := text.toList.head?.any (· != ' ') = true

instance (text : String) : Decidable (Inline text) := inferInstanceAs (Decidable (_ = _))

instance (text : String) : Decidable (Visible text) := inferInstanceAs (Decidable (_ = _))

variable {x y text label : String}

theorem Inline.append (hx : Inline x) (hy : Inline y) : Inline (x ++ y) := by
  rw [Inline, String.toList_append, List.all_append, Bool.and_eq_true]
  exact ⟨hx, hy⟩

theorem Visible.append (h : Visible x) : Visible (x ++ y) := by
  obtain ⟨c, hc, visible⟩ := (Option.any_eq_true _ _).1 h
  rw [Visible, String.toList_append, List.head?_append, hc]
  exact visible

theorem Inline.not_mem {c : Char} (h : Inline text) (hc : isInline c = false) : c ∉ text.toList := by
  intro mem
  have := List.all_eq_true.1 h c mem
  rw [hc] at this
  cases this

theorem isInline_of_isWordChar {c : Char} (h : isWordChar c = true) : isInline c = true := by
  cases hc : isInline c with
  | true => rfl
  | false =>
    have outside : ['\x7b', '\x7d', '\n'].all (fun c => !isWordChar c) = true := by decide
    have mem : c ∈ ['\x7b', '\x7d', '\n'] := by
      simp only [isInline, Bool.and_eq_false_iff, bne_eq_false_iff_eq] at hc
      simp only [List.mem_cons, List.not_mem_nil, or_false]
      tauto
    have other := List.all_eq_true.1 outside c mem
    rw [h] at other
    cases other

theorem inline_name (h : isName x = true) : Inline x :=
  List.all_eq_true.2 fun c hc => isInline_of_isWordChar (all_word_of_isName h c hc)

theorem visible_name (h : isName x = true) : Visible x := by
  obtain ⟨c, rest, hx⟩ := List.exists_cons_of_ne_nil (ne_of_isName h)
  have word := all_word_of_isName h c (by simp [hx])
  have visible : (c != ' ') = true := by
    rw [bne_iff_ne]
    rintro rfl
    exact absurd word (by decide)
  rw [Visible, hx]
  exact visible

theorem inline_number (n : Nat) : Inline (toString n) := by
  refine List.all_eq_true.2 fun c hc => isInline_of_isWordChar (isWordChar_of_isDigit ?_)
  have digits : (toString n).toList = Nat.toDigits 10 n := Nat.toList_repr
  rw [digits] at hc
  exact Nat.isDigit_of_mem_toDigits (by decide) (by decide) hc

theorem inline_type (t : Ty) : Inline t.text := by
  cases t <;> decide +kernel

theorem visible_type (t : Ty) : Visible t.text := by
  cases t <;> decide +kernel

theorem inline_op (o : Op) : Inline o.text := by
  cases o <;> decide +kernel

theorem inline_expr {e : Expr} (h : e.legible = true) : Inline e.text := by
  induction e with
  | lit n => exact inline_number n
  | var x => exact inline_name h
  | cell index ih => exact (Inline.append (by decide) (ih h)).append (by decide)
  | call f argument ih =>
    rw [Expr.legible, Bool.and_eq_true] at h
    exact (((inline_name h.1).append (by decide)).append (ih h.2)).append (by decide)
  | toByte e ih =>
    rw [Expr.legible, Bool.and_eq_true] at h
    exact Inline.append (by decide) (ih h.2)
  | neg e ih =>
    simp only [Expr.legible, Bool.and_eq_true] at h
    exact Inline.append (by decide) (ih h.2)
  | paren e ih => exact (Inline.append (by decide) (ih h)).append (by decide)
  | binary o left right ihl ihr =>
    simp only [Expr.legible, Bool.and_eq_true] at h
    exact ((((ihl h.1.2).append (by decide)).append (inline_op o)).append (by decide)).append (ihr h.2)
  | cond test yes no iht ihy ihn =>
    simp only [Expr.legible, Bool.and_eq_true] at h
    exact ((((iht h.1.1.2).append (by decide)).append (ihy h.1.2)).append (by decide)).append (ihn h.2)

theorem inline_commas {α : Type} {f : α → String} {xs : List α} (h : ∀ a ∈ xs, Inline (f a)) :
    Inline (commaSeparated (xs.map f)) := by
  induction xs with
  | nil => rfl
  | cons a xs ih =>
    obtain ⟨first, later⟩ := List.forall_mem_cons.1 h
    cases xs with
    | nil =>
      rw [List.map_singleton, commaSeparated, String.intercalate_singleton]
      exact first
    | cons b xs =>
      have rest := ih later
      simp only [List.map_cons, commaSeparated, String.intercalate_cons_cons] at rest ⊢
      exact (first.append (by decide)).append rest

theorem inline_place {place : Place} (h : place.legible = true) : Inline place.text := by
  cases place with
  | var x => exact inline_name h
  | cell index => exact inline_expr (e := .cell index) h

theorem visible_place {place : Place} (h : place.legible = true) : Visible place.text := by
  cases place with
  | var x => exact visible_name h
  | cell index => exact (Visible.append (by decide)).append

theorem inline_simple {s : Stmt} (h : s.legible = true) (simple : s.isSimple = true) : Inline s.text := by
  cases s with
  | declare t inits =>
    rw [Stmt.legible, Bool.and_eq_true, List.all_eq_true] at h
    have items : Inline (commaSeparated (inits.map fun init => init.1 ++ " = " ++ init.2.text)) := by
      refine inline_commas fun init hi => ?_
      have both := h.2 init hi
      rw [Bool.and_eq_true] at both
      exact ((inline_name both.1).append (by decide)).append (inline_expr both.2)
    exact (((inline_type t).append (by decide)).append items).append (by decide)
  | assign place value =>
    rw [Stmt.legible, Bool.and_eq_true] at h
    exact (((inline_place h.1).append (by decide)).append (inline_expr h.2)).append (by decide)
  | addAssign place value =>
    rw [Stmt.legible, Bool.and_eq_true] at h
    exact (((inline_place h.1).append (by decide)).append (inline_expr h.2)).append (by decide)
  | call f arguments =>
    rw [Stmt.legible, Bool.and_eq_true, Bool.and_eq_true, List.all_eq_true] at h
    have items : Inline (commaSeparated (arguments.map Expr.text)) := inline_commas fun e he => inline_expr (h.2 e he)
    exact (((inline_name h.1.1).append (by decide)).append items).append (by decide)
  | putchar byte => exact (Inline.append (by decide) (inline_expr h)).append (by decide)
  | flush => decide
  | getchar x => exact (Inline.append (by decide) (inline_name h)).append (by decide)
  | discard x => exact (Inline.append (by decide) (inline_name h)).append (by decide)
  | ret value => exact (Inline.append (by decide) (inline_expr h)).append (by decide)
  | ifThen _ _ | whileDo _ _ | countDown _ _ | block _ => cases simple

theorem visible_simple {s : Stmt} (h : s.legible = true) (simple : s.isSimple = true) : Visible s.text := by
  cases s with
  | declare t inits => exact (visible_type t).append.append.append
  | assign place value =>
    rw [Stmt.legible, Bool.and_eq_true] at h
    exact (visible_place h.1).append.append.append
  | addAssign place value =>
    rw [Stmt.legible, Bool.and_eq_true] at h
    exact (visible_place h.1).append.append.append
  | call f arguments =>
    rw [Stmt.legible, Bool.and_eq_true, Bool.and_eq_true] at h
    exact (visible_name h.1.1).append.append.append
  | putchar byte => exact (Visible.append (by decide)).append
  | flush => decide
  | getchar x => exact (Visible.append (by decide)).append
  | discard x => exact (Visible.append (by decide)).append
  | ret value => exact (Visible.append (by decide)).append
  | ifThen _ _ | whileDo _ _ | countDown _ _ | block _ => cases simple

/-! ### Proper strokes -/

/-- A line holds no brace, unless it opens a block, and then it ends with its only brace. -/
def Stroke.Proper : Stroke → Prop
  | line text => Inline text ∧ Visible text
  | enter header => ∃ label, header = label ++ "\x7b" ∧ Inline label ∧ Visible header
  | leave => True

/-- What can stand in front of a statement. -/
def IsLabel (label : String) : Prop := Inline label ∧ (label = "" ∨ Visible label)

theorem IsLabel.visible (h : IsLabel label) (hx : Visible x) : Visible (label ++ x) := by
  rcases h.2 with rfl | visible
  · rw [String.empty_append]
    exact hx
  · exact visible.append

theorem IsLabel.append (h : IsLabel label) (hi : Inline x) (hv : Visible x) : IsLabel (label ++ x) :=
  ⟨h.1.append hi, .inr (h.visible hv)⟩

theorem proper_simple {s : Stmt} (h : s.legible = true) (simple : s.isSimple = true) (hl : IsLabel label) :
    ∀ k ∈ s.strokes label, k.Proper := by
  have one : s.strokes label = [.line (label ++ s.text)] := by
    cases s with
    | ifThen _ _ | whileDo _ _ | countDown _ _ | block _ => cases simple
    | _ => rfl
  rw [one, List.forall_mem_singleton]
  exact ⟨hl.1.append (inline_simple h simple), hl.visible (visible_simple h simple)⟩

mutual

/-- The strokes of a legible statement are proper. -/
theorem proper_strokes : (s : Stmt) → s.legible = true → (label : String) → IsLabel label →
    ∀ k ∈ s.strokes label, k.Proper
  | .ifThen test body, h, label, hl => by
    simp only [Stmt.legible, Bool.and_eq_true] at h
    have inline : Inline (Stmt.text (.ifThen test body)) :=
      (Inline.append (by decide) (inline_expr h.1.1)).append (by decide)
    rw [Stmt.strokes]
    exact proper_strokes body h.2 _ (hl.append inline (Visible.append (by decide)).append)
  | .whileDo test body, h, label, hl => by
    simp only [Stmt.legible, Bool.and_eq_true] at h
    have inline : Inline (Stmt.text (.whileDo test body)) :=
      (Inline.append (by decide) (inline_expr h.1.1)).append (by decide)
    rw [Stmt.strokes]
    exact proper_strokes body h.2 _ (hl.append inline (Visible.append (by decide)).append)
  | .countDown x body, h, label, hl => by
    simp only [Stmt.legible, Bool.and_eq_true] at h
    have inline : Inline (Stmt.text (.countDown x body)) :=
      (Inline.append (by decide) (inline_name h.1.1)).append (by decide)
    rw [Stmt.strokes]
    exact proper_strokes body h.2 _ (hl.append inline (Visible.append (by decide)).append)
  | .block body, h, label, hl => by
    rw [Stmt.legible] at h
    rw [Stmt.strokes, List.forall_mem_cons, List.forall_mem_append, List.forall_mem_singleton]
    exact ⟨⟨label, rfl, hl.1, hl.visible (by decide)⟩, proper_strokesOfAll body h, trivial⟩
  | .declare _ _, h, _, hl | .assign _ _, h, _, hl | .addAssign _ _, h, _, hl | .call _ _, h, _, hl
  | .putchar _, h, _, hl | .flush, h, _, hl | .getchar _, h, _, hl | .discard _, h, _, hl | .ret _, h, _, hl =>
    proper_simple h rfl hl

theorem proper_strokesOfAll : (ss : List Stmt) → legibleAll ss = true → ∀ k ∈ strokesOfAll ss, k.Proper
  | [], _ => by
    rw [strokesOfAll]
    nofun
  | s :: rest, h => by
    rw [legibleAll, Bool.and_eq_true] at h
    rw [strokesOfAll, List.forall_mem_append]
    exact ⟨proper_strokes s h.1 "" ⟨by decide, .inl rfl⟩, proper_strokesOfAll rest h.2⟩

end

/-! ### Braces and depth -/

theorem openBraces_append (a b : List Char) : openBraces (a ++ b) = openBraces a + openBraces b := by
  simp only [openBraces, List.count_append]
  omega

theorem openBraces_nil : openBraces [] = 0 := rfl

theorem count_characters {c : Char} (hc : c ≠ ' ') (l : Line) : l.characters.count c = l.text.toList.count c := by
  have blanks : (List.replicate (4 * l.depth) ' ').count c = 0 := by
    rw [List.count_eq_zero]
    intro mem
    exact hc (List.eq_of_mem_replicate mem)
  rw [Line.characters, List.count_append, blanks, Nat.zero_add]

variable {k : Stroke} {low depth : Nat} {ss : List Stroke}

theorem Inline.count_eq_zero {c : Char} (h : Inline text) (hc : isInline c = false) : text.toList.count c = 0 :=
  List.count_eq_zero.2 (h.not_mem hc)

/-- What a stroke does to the depth, its line does to the braces. -/
theorem openBraces_lineAt (proper : k.Proper) (allowed : k = .leave → low < depth) :
    openBraces (k.lineAt depth).characters = k.next depth - depth := by
  rw [openBraces, count_characters (by decide), count_characters (by decide)]
  cases k with
  | line text =>
    have opening := proper.1.count_eq_zero (c := '\x7b') rfl
    have closing := proper.1.count_eq_zero (c := '\x7d') rfl
    simp [Stroke.lineAt, Stroke.next, opening, closing]
  | enter header =>
    obtain ⟨label, rfl, inline, -⟩ := proper
    have opening := inline.count_eq_zero (c := '\x7b') rfl
    have closing := inline.count_eq_zero (c := '\x7d') rfl
    simp [Stroke.lineAt, Stroke.next, String.toList_append, List.count_append, opening, closing]
  | leave =>
    have := allowed rfl
    simp [Stroke.lineAt, Stroke.next]
    omega

theorem count_close_lineAt (proper : k.Proper) (depth : Nat) :
    (k.lineAt depth).characters.count '\x7d' = if k = .leave then 1 else 0 := by
  rw [count_characters (by decide)]
  cases k with
  | line text => simp [Stroke.lineAt, proper.1.count_eq_zero (c := '\x7d') rfl]
  | enter header =>
    obtain ⟨label, rfl, inline, -⟩ := proper
    simp [Stroke.lineAt, String.toList_append, List.count_append, inline.count_eq_zero (c := '\x7d') rfl]
  | leave => simp [Stroke.lineAt]

theorem openBraces_render (l : Line) : openBraces l.render.toList = openBraces l.characters := by
  have newline : openBraces ['\n'] = 0 := rfl
  rw [Line.toList_render, openBraces_append, newline, Int.add_zero]

theorem openBraces_renderAll (ls : List Line) :
    openBraces (Line.renderAll ls).toList = openBraces (ls.map Line.characters).flatten := by
  induction ls with
  | nil => rfl
  | cons l ls ih =>
    rw [Line.renderAll_cons, String.toList_append, openBraces_append, openBraces_render, ih, List.map_cons,
      List.flatten_cons, openBraces_append]

/-- The braces that are left open by some strokes are the levels that were gone down. -/
theorem openBraces_linesFrom (proper : ∀ k ∈ ss, k.Proper) (h : Within low depth ss) :
    openBraces ((linesFrom depth ss).map Line.characters).flatten = depthAfter depth ss - depth := by
  induction ss generalizing depth with
  | nil =>
    rw [depthAfter, Int.sub_self]
    rfl
  | cons k ss ih =>
    obtain ⟨first, later⟩ := List.forall_mem_cons.1 proper
    rw [linesFrom, List.map_cons, List.flatten_cons, openBraces_append, openBraces_lineAt first h.1, ih later h.2,
      depthAfter]
    omega

/-- A part of a line closes a brace only if the line closes a block. -/
theorem openBraces_part {shown : List Char} (proper : k.Proper) (part : shown <+: (k.lineAt depth).render.toList) :
    -(if k = .leave then 1 else 0 : Nat) ≤ openBraces shown := by
  have closing := part.sublist.count_le '\x7d'
  have newline : ['\n'].count '\x7d' = 0 := rfl
  rw [Line.toList_render, List.count_append, newline, count_close_lineAt proper, Nat.add_zero] at closing
  rw [openBraces]
  omega

/-- However much of the lines is shown, no more braces are closed than there are levels to come back from. -/
theorem le_openBraces_of_prefix {shown : List Char} (proper : ∀ k ∈ ss, k.Proper) (h : Within low depth ss)
    (le : low ≤ depth) (part : shown <+: (Line.renderAll (linesFrom depth ss)).toList) :
    (low : Int) ≤ depth + openBraces shown := by
  induction ss generalizing depth shown with
  | nil =>
    obtain rfl := List.prefix_nil.1 part
    rw [openBraces_nil]
    omega
  | cons k ss ih =>
    obtain ⟨first, later⟩ := List.forall_mem_cons.1 proper
    rw [linesFrom, Line.renderAll_cons, String.toList_append] at part
    rcases List.prefix_or_prefix_of_prefix part (List.prefix_append _ _) with short | ⟨more, rfl⟩
    -- The text ends inside the first line.
    · have := openBraces_part first short
      by_cases leaves : k = .leave
      · have := h.1 leaves
        rw [if_pos leaves] at *
        omega
      · rw [if_neg leaves] at *
        omega
    · have rest := ih later h.2 (le_next h.1 le) ((List.prefix_append_right_inj _).1 part)
      rw [openBraces_append, openBraces_render, openBraces_lineAt first h.1]
      omega

/-! ### The file of a program -/

/-- The lines above the statements of a program, the first ones of `main` among them. -/
def prelude : List Line :=
  (Program.toC []).preamble ++ helpers.flatMap Function.lines ++ ⟨0, "int main(void) \x7b"⟩ :: linesOfAll 1 opening

/-- The pen that has written the prelude. -/
def Pen.start : Pen := ⟨Line.renderAll prelude, 1⟩

end C

/-- How a program is written behind the prelude. -/
def Program.strokes (p : Program) : List C.Stroke := C.strokesOfAll (C.ofProgram p)

namespace C

variable {text : String} {k : Stroke} {low depth : Nat} {ss : List Stroke}

theorem linesOfAll_append (depth : Nat) (ss ss' : List Stmt) :
    linesOfAll depth (ss ++ ss') = linesOfAll depth ss ++ linesOfAll depth ss' := by
  induction ss with
  | nil => rw [linesOfAll, List.nil_append, List.nil_append]
  | cons s ss ih => rw [List.cons_append, linesOfAll, linesOfAll, ih, List.append_assoc]

theorem lines_toC (p : Program) : p.toC.lines = prelude ++ linesFrom 1 p.strokes ++ File.ending := by
  have written : linesFrom 1 p.strokes = linesOfAll 1 (ofProgram p) := (writes_strokesOfAll (ofProgram p)).lines 1
  rw [written, File.lines, Program.toC, linesOfAll_append, prelude]
  simp only [List.append_assoc, List.cons_append]
  rfl

theorem single_prelude : ∀ l ∈ prelude, '\n' ∉ l.text.toList := by
  have all : (prelude.all fun l => !l.text.toList.contains '\n') = true := by decide +kernel
  intro l hl mem
  have := List.all_eq_true.1 all l hl
  simp [mem] at this

theorem single_ending : ∀ l ∈ File.ending, '\n' ∉ l.text.toList := by
  decide +kernel

theorem openBraces_prelude : openBraces (prelude.map Line.characters).flatten = 1 := by
  decide +kernel

/-- The lines between the statements of a program and the brace that closes `main`. -/
def farewell : List Line := Stmt.flush.lines 0 ++ (Stmt.ret (.lit 0)).lines 1

theorem openBraces_farewell {shown : List Char} (part : shown <+: (Line.renderAll farewell).toList) :
    openBraces shown = 0 := by
  have opening : (Line.renderAll farewell).toList.count '\x7b' = 0 := by decide +kernel
  have closing : (Line.renderAll farewell).toList.count '\x7d' = 0 := by decide +kernel
  have := part.sublist.count_le '\x7b'
  have := part.sublist.count_le '\x7d'
  rw [openBraces]
  omega

theorem proper_program (p : Program) : ∀ k ∈ p.strokes, k.Proper := by
  have legible := legible_toC p
  rw [File.legible, Bool.and_eq_true] at legible
  refine proper_strokesOfAll _ (legibleAll_iff.2 fun s hs => ?_)
  exact legibleAll_iff.1 legible.2 s (List.mem_append_right _ hs)

theorem writes_program (p : Program) : Writes p.strokes fun depth => linesOfAll depth (ofProgram p) :=
  writes_strokesOfAll (ofProgram p)

/-- The text above some statement of a program leaves as many braces open as its strokes have gone down. -/
theorem openBraces_above (proper : ∀ k ∈ ss, k.Proper) (h : Within low 1 ss) :
    openBraces (prelude.map Line.characters ++ (linesFrom 1 ss).map Line.characters).flatten = depthAfter 1 ss := by
  rw [List.flatten_append, openBraces_append, openBraces_prelude, openBraces_linesFrom proper h]
  omega

/-! ### Lines and levels -/

theorem Inline.not_newline (h : Inline text) : '\n' ∉ text.toList := h.not_mem rfl

theorem tidy_lineAt (proper : k.Proper) (depth : Nat) : (k.lineAt depth).Tidy := by
  cases k with
  | line text => exact ⟨proper.1.not_newline, proper.2⟩
  | enter header =>
    obtain ⟨label, rfl, inline, visible⟩ := proper
    refine ⟨?_, visible⟩
    rw [Stroke.lineAt, String.toList_append, List.mem_append, not_or]
    exact ⟨inline.not_newline, by decide⟩
  | leave =>
    have visible : Visible "\x7d" := by decide
    exact ⟨show '\n' ∉ "\x7d".toList by decide, visible⟩

/-- Only what closes a block is written as a single closing brace. -/
theorem closes_iff (proper : k.Proper) (depth : Nat) : (k.lineAt depth).text.toList = ['\x7d'] ↔ k = .leave := by
  refine ⟨fun closes => ?_, ?_⟩
  · have count : (k.lineAt depth).characters.count '\x7d' = 1 := by
      rw [count_characters (by decide), closes]
      rfl
    rw [count_close_lineAt proper] at count
    by_contra other
    rw [if_neg other] at count
    cases count
  · rintro rfl
    show "\x7d".toList = _
    decide

/-- The number of braces that are open around a line below some others.  The line that closes a block stands outside
it. -/
def openAround (above : List (List Char)) (line : List Char) : Int :=
  if unindent line = ['\x7d'] then openBraces (above ++ [line]).flatten else openBraces above.flatten

theorem indentOf_lineAt (proper : ∀ k ∈ ss, k.Proper) (first : k.Proper) (h : Within low 1 (ss ++ [k])) :
    (indentOf (k.lineAt (depthAfter 1 ss)).characters : Int) =
      4 * openAround (prelude.map Line.characters ++ (linesFrom 1 ss).map Line.characters)
        (k.lineAt (depthAfter 1 ss)).characters := by
  obtain ⟨before, here, -⟩ := within_append.1 h
  have tidy := tidy_lineAt first (depthAfter 1 ss)
  rw [tidy.indentOf_eq, openAround, tidy.unindent_eq]
  -- Only the stroke that closes a block changes the depth before it writes.
  by_cases leaves : k = .leave
  · have behind : openBraces (k.lineAt (depthAfter 1 ss)).characters = _ := openBraces_lineAt first here
    have := here leaves
    rw [if_pos ((closes_iff first _).2 leaves), List.flatten_append, openBraces_append,
      openBraces_above proper before, List.flatten_singleton, behind, leaves]
    simp only [Stroke.lineAt, Stroke.next]
    omega
  · have level : (k.lineAt (depthAfter 1 ss)).depth = depthAfter 1 ss := by
      cases k with
      | leave => exact absurd rfl leaves
      | _ => rfl
    rw [if_neg (mt (closes_iff first _).1 leaves), openBraces_above proper before, level]
    omega

/-! ### Whole programs -/

/-- The counter of the pen, the indentation of the lines and the open braces of a program go along with each other. -/
structure InStep (p : Program) : Prop where
  /-- At every point the counter is the number of open braces.  It is never less than one, nor less than two where a
  block is closed. -/
  counted : ∀ done todo, p.strokes = done ++ todo → ∃ pen, Pen.start.strokes? done = some pen ∧
    1 ≤ pen.depth ∧ openBraces pen.text.toList = pen.depth ∧ (todo.head? = some .leave → 2 ≤ pen.depth)
  /-- The pen ends where it started, and has written all of the program. -/
  finished : ∃ pen, Pen.start.strokes? p.strokes = some pen ∧ pen.depth = 1 ∧
    p.toC.render = pen.text ++ Line.renderAll File.ending
  /-- The lines between the prelude and the ending are indented by the braces that are open around them. -/
  indented : ∃ body : List (List Char),
    linesOf p.toC.render.toList =
      linesOf (Line.renderAll prelude).toList ++ body ++ linesOf (Line.renderAll File.ending).toList ∧
    ∀ before line after, body = before ++ line :: after →
      (indentOf line : Int) = 4 * openAround (linesOf (Line.renderAll prelude).toList ++ before) line
  /-- The brace of `main` stays open from the prelude to the last line, which closes it. -/
  closed : ∃ front : List Char, p.toC.render.toList = front ++ ['\x7d', '\n'] ∧
    (∀ shown, (Line.renderAll prelude).toList <+: shown → shown <+: front → 1 ≤ openBraces shown) ∧
    openBraces p.toC.render.toList = 0

theorem render_toC (p : Program) : p.toC.render =
    Line.renderAll prelude ++ Line.renderAll (linesFrom 1 p.strokes) ++ Line.renderAll File.ending := by
  rw [File.render, lines_toC, Line.renderAll_append, Line.renderAll_append]

theorem strokes?_start {p : Program} {done todo : List Stroke} (split : p.strokes = done ++ todo) :
    Pen.start.strokes? done =
      some ⟨Line.renderAll prelude ++ Line.renderAll (linesFrom 1 done), depthAfter 1 done⟩ := by
  have within := (writes_program p).within 1 1 le_rfl
  rw [split, within_append] at within
  exact Pen.strokes?_eq within.1

theorem counted (p : Program) (done todo : List Stroke) (split : p.strokes = done ++ todo) :
    ∃ pen, Pen.start.strokes? done = some pen ∧ 1 ≤ pen.depth ∧ openBraces pen.text.toList = pen.depth ∧
      (todo.head? = some .leave → 2 ≤ pen.depth) := by
  have within := (writes_program p).within 1 1 le_rfl
  have proper := proper_program p
  rw [split, within_append] at within
  rw [split, List.forall_mem_append] at proper
  refine ⟨_, strokes?_start split, le_depthAfter within.1 le_rfl, ?_, fun leaves => ?_⟩
  · have above := openBraces_above proper.1 within.1
    rw [List.flatten_append, openBraces_append] at above
    rw [String.toList_append, openBraces_append, openBraces_renderAll, openBraces_renderAll, above]
  · obtain ⟨rest, rfl⟩ := List.head?_eq_some_iff.1 leaves
    exact within.2.1 rfl

theorem finished (p : Program) : ∃ pen, Pen.start.strokes? p.strokes = some pen ∧ pen.depth = 1 ∧
    p.toC.render = pen.text ++ Line.renderAll File.ending :=
  ⟨_, strokes?_start (List.append_nil _).symm, (writes_program p).depth 1, render_toC p⟩

theorem tidy_linesFrom (proper : ∀ k ∈ ss, k.Proper) : ∀ l ∈ linesFrom depth ss, l.Tidy := by
  intro l hl
  obtain ⟨before, after, lines⟩ := List.append_of_mem hl
  obtain ⟨a, k, b, rfl, -, rfl⟩ := exists_split_of_linesFrom lines
  exact tidy_lineAt (proper k (List.mem_append_right _ List.mem_cons_self)) _

theorem linesOf_render (p : Program) :
    linesOf p.toC.render.toList =
      prelude.map Line.characters ++ (linesFrom 1 p.strokes).map Line.characters ++
        File.ending.map Line.characters := by
  have single : ∀ l ∈ p.toC.lines, '\n' ∉ l.text.toList := by
    rw [lines_toC]
    simp only [List.forall_mem_append]
    exact ⟨⟨single_prelude, fun l hl => (tidy_linesFrom (proper_program p) l hl).single⟩, single_ending⟩
  rw [File.render, Line.linesOf_renderAll single, lines_toC, List.map_append, List.map_append]

theorem indented (p : Program) : ∃ body : List (List Char),
    linesOf p.toC.render.toList =
      linesOf (Line.renderAll prelude).toList ++ body ++ linesOf (Line.renderAll File.ending).toList ∧
    ∀ before line after, body = before ++ line :: after →
      (indentOf line : Int) = 4 * openAround (linesOf (Line.renderAll prelude).toList ++ before) line := by
  have within := (writes_program p).within 1 1 le_rfl
  have proper := proper_program p
  rw [Line.linesOf_renderAll single_prelude, Line.linesOf_renderAll single_ending]
  refine ⟨_, linesOf_render p, fun before line after split => ?_⟩
  obtain ⟨above, here, lines, rfl, below⟩ := List.map_eq_append_iff.1 split
  obtain ⟨l, _, rfl, rfl, -⟩ := List.map_eq_cons_iff.1 below
  obtain ⟨a, k, b, strokes, rfl, rfl⟩ := exists_split_of_linesFrom lines
  rw [strokes, List.append_cons, within_append] at within
  rw [strokes, List.forall_mem_append, List.forall_mem_cons] at proper
  exact indentOf_lineAt proper.1 proper.2.1 within.1

/-- Behind the prelude at least the brace of `main` is open, up to the last line. -/
theorem one_le_openBraces (proper : ∀ k ∈ ss, k.Proper) (h : Within 1 1 ss) {shown : List Char}
    (start : (Line.renderAll prelude).toList <+: shown)
    (part : shown <+: (Line.renderAll prelude ++ Line.renderAll (linesFrom 1 ss) ++ Line.renderAll farewell).toList)
    (back : depthAfter 1 ss = 1) : 1 ≤ openBraces shown := by
  obtain ⟨more, rfl⟩ := start
  rw [String.toList_append, String.toList_append, List.append_assoc, List.prefix_append_right_inj] at part
  rw [openBraces_append, openBraces_renderAll, openBraces_prelude]
  rcases List.prefix_or_prefix_of_prefix part (List.prefix_append _ _) with inside | ⟨rest, rfl⟩
  · exact le_openBraces_of_prefix proper h le_rfl inside
  · have behind := openBraces_farewell ((List.prefix_append_right_inj _).1 part)
    rw [openBraces_append, openBraces_renderAll, openBraces_linesFrom proper h, back, behind]
    decide

theorem closed (p : Program) : ∃ front : List Char, p.toC.render.toList = front ++ ['\x7d', '\n'] ∧
    (∀ shown, (Line.renderAll prelude).toList <+: shown → shown <+: front → 1 ≤ openBraces shown) ∧
    openBraces p.toC.render.toList = 0 := by
  have within := (writes_program p).within 1 1 le_rfl
  have back := (writes_program p).depth 1
  have proper := proper_program p
  have ending : Line.renderAll File.ending = Line.renderAll farewell ++ Line.renderAll [⟨0, "\x7d"⟩] :=
    Line.renderAll_append farewell _
  have last : (Line.renderAll [⟨0, "\x7d"⟩]).toList = ['\x7d', '\n'] := by decide +kernel
  have text : p.toC.render.toList =
      (Line.renderAll prelude ++ Line.renderAll (linesFrom 1 p.strokes) ++ Line.renderAll farewell).toList ++
        ['\x7d', '\n'] := by
    rw [render_toC, ending, ← String.append_assoc, String.toList_append, last]
  refine ⟨_, text, fun shown start part => one_le_openBraces proper within start part back, ?_⟩
  have brace : openBraces ['\x7d', '\n'] = -1 := rfl
  rw [text, openBraces_append, String.toList_append, String.toList_append, openBraces_append, openBraces_append,
    openBraces_renderAll, openBraces_renderAll, openBraces_prelude, openBraces_linesFrom proper within, back,
    openBraces_farewell List.prefix_rfl, brace]
  decide

end C

open C in
/-- An instruction leaves the pen at the depth it came with, and through the whole program depth, indentation and
braces go along with each other. -/
theorem program_is_written_in_step :
    (∀ (i : Instruction) (pen : Pen), pen.strokes? (strokesOfAll (ofInstruction i)) =
      some { pen with text := pen.text ++ Line.renderAll (linesOfAll pen.depth (ofInstruction i)) }) ∧
    ∀ p, InStep p := by
  refine ⟨fun i pen => ?_, fun p => ⟨counted p, finished p, indented p, closed p⟩⟩
  have writes := writes_strokesOfAll (ofInstruction i)
  rw [Pen.strokes?_eq (writes.within 0 pen.depth (Nat.zero_le _)), writes.lines, writes.depth]

end TapeLang
