import TapeLang.Line

/-!
# The lines of a text

A text that was put together from indented lines falls into these lines again (`linesOf_renderAll`), and a line that
is not blank shows its depth and its text (`Line.Tidy.ext`).  So the lines can be told from the text
(`Line.renderAll_injective`).
-/

namespace TapeLang

/-- The lines of a text, without what ends them.  The last line need not be ended. -/
def linesOf : List Char → List (List Char)
  | [] => []
  | c :: rest =>
    if c = '\n' then [] :: linesOf rest
    else
      match linesOf rest with
      | [] => [[c]]
      | line :: more => (c :: line) :: more

theorem linesOf_append {line : List Char} (single : '\n' ∉ line) (rest : List Char) :
    linesOf (line ++ '\n' :: rest) = line :: linesOf rest := by
  induction line with
  | nil => rfl
  | cons c line ih =>
    simp only [List.mem_cons, not_or] at single
    rw [List.cons_append, linesOf, if_neg (Ne.symm single.1), ih single.2]

example : linesOf "loop\n\n  end".toList = ["loop".toList, [], "  end".toList] := by decide

/-- The number of blanks at the start. -/
def indentOf (line : List Char) : Nat := (line.takeWhile (· == ' ')).length

/-- What follows the blanks at the start. -/
def unindent (line : List Char) : List Char := line.dropWhile (· == ' ')

namespace Line

def characters (l : Line) : List Char := List.replicate (4 * l.depth) ' ' ++ l.text.toList

/-- The text is one line and does not start with a blank, so it can be told from the blanks before it. -/
structure Tidy (l : Line) : Prop where
  single : '\n' ∉ l.text.toList
  start : l.text.toList.head?.any (· != ' ') = true

theorem renderAll_append (ls ls' : List Line) : renderAll (ls ++ ls') = renderAll ls ++ renderAll ls' := by
  induction ls with
  | nil => exact (String.empty_append).symm
  | cons l ls ih => rw [List.cons_append, renderAll_cons, renderAll_cons, ih, String.append_assoc]

theorem toList_render (l : Line) : l.render.toList = l.characters ++ ['\n'] := by
  simp [render, indentation, characters]

theorem toList_renderAll (ls : List Line) : (renderAll ls).toList = ls.flatMap fun l => l.characters ++ ['\n'] := by
  induction ls with
  | nil => rfl
  | cons l ls ih =>
    rw [renderAll_cons, String.toList_append, toList_render, ih, List.flatMap_cons]

variable {l l' : Line} {ls ls' : List Line}

theorem not_mem_characters (single : '\n' ∉ l.text.toList) : '\n' ∉ l.characters := by
  rw [characters, List.mem_append, not_or]
  refine ⟨fun mem => ?_, single⟩
  exact absurd (List.eq_of_mem_replicate mem) (by decide)

/-- A text made of lines falls into these lines. -/
theorem linesOf_renderAll (single : ∀ l ∈ ls, '\n' ∉ l.text.toList) :
    linesOf (renderAll ls).toList = ls.map characters := by
  rw [toList_renderAll]
  induction ls with
  | nil => rfl
  | cons l ls ih =>
    obtain ⟨first, later⟩ := List.forall_mem_cons.1 single
    rw [List.flatMap_cons, List.append_assoc, List.singleton_append, linesOf_append (not_mem_characters first),
      ih later, List.map_cons]

theorem blank_of_mem_indentation {n : Nat} {c : Char} (mem : c ∈ List.replicate n ' ') : (c == ' ') = true := by
  rw [List.eq_of_mem_replicate mem]
  rfl

theorem Tidy.exists_cons (h : l.Tidy) : ∃ c rest, l.text.toList = c :: rest ∧ (c == ' ') = false := by
  obtain ⟨c, hc, visible⟩ := (Option.any_eq_true _ _).1 h.start
  obtain ⟨rest, text⟩ := List.head?_eq_some_iff.1 hc
  exact ⟨c, rest, text, by simpa using visible⟩

theorem Tidy.indentOf_eq (h : l.Tidy) : indentOf l.characters = 4 * l.depth := by
  obtain ⟨c, rest, text, visible⟩ := h.exists_cons
  rw [indentOf, characters, text, List.takeWhile_append_of_pos fun _ => blank_of_mem_indentation,
    List.takeWhile_cons_of_neg (by simp [visible]), List.append_nil, List.length_replicate]

theorem Tidy.unindent_eq (h : l.Tidy) : unindent l.characters = l.text.toList := by
  obtain ⟨c, rest, text, visible⟩ := h.exists_cons
  rw [unindent, characters, text, List.dropWhile_append_of_pos fun _ => blank_of_mem_indentation,
    List.dropWhile_cons_of_neg (by simp [visible])]

/-- A tidy line can be told from what is written. -/
theorem Tidy.ext (h : l.Tidy) (h' : l'.Tidy) (same : l.characters = l'.characters) : l = l' := by
  have depth : 4 * l.depth = 4 * l'.depth := by rw [← h.indentOf_eq, ← h'.indentOf_eq, same]
  have text : l.text.toList = l'.text.toList := by rw [← h.unindent_eq, ← h'.unindent_eq, same]
  obtain ⟨d, t⟩ := l
  obtain ⟨d', t'⟩ := l'
  rw [mk.injEq]
  exact ⟨Nat.eq_of_mul_eq_mul_left (by decide) depth, String.toList_inj.1 text⟩

theorem renderAll_injective (tidy : ∀ l ∈ ls, l.Tidy) (tidy' : ∀ l ∈ ls', l.Tidy)
    (same : renderAll ls = renderAll ls') : ls = ls' := by
  have lines := linesOf_renderAll fun l hl => (tidy l hl).single
  rw [same, linesOf_renderAll fun l hl => (tidy' l hl).single] at lines
  clear same
  induction ls generalizing ls' with
  | nil =>
    cases ls' with
    | nil => rfl
    | cons l' ls' => cases lines
  | cons l ls ih =>
    cases ls' with
    | nil => cases lines
    | cons l' ls' =>
      obtain ⟨here, later⟩ := List.forall_mem_cons.1 tidy
      obtain ⟨here', later'⟩ := List.forall_mem_cons.1 tidy'
      obtain ⟨first, rest⟩ := List.cons.inj lines
      rw [here.ext here' first.symm, ih later later' rest]

end Line

end TapeLang
