import Mathlib
import TapeLang.Listing
import TapeLang.Proofs.TextLines

/-!
# Listings lose nothing

A program can be told from its listing, and the listing has a line for each instruction and one more for each body
that it closes (`listing_is_lossless`).

A listing is taken apart from the outside.  Its lines are tidy, so they are known from the text.  The first two
characters of a line tell the forms apart that are written differently (`Instruction.initials`), and the operands
follow, each of them ended by a character that it cannot hold (`eq_of_append_eq`).  Bodies are cut off by the depth of
the lines (`lines_append_inj`).
-/

namespace TapeLang

/-! ### Operands -/

/-- A piece of a text that goes as far as its characters have some property can be told from the text. -/
theorem eq_of_append_eq {p : Char → Bool} {a b x y : List Char} (ha : ∀ c ∈ a, p c = true) (hb : ∀ c ∈ b, p c = true)
    (hx : ∀ c ∈ x.head?, p c = false) (hy : ∀ c ∈ y.head?, p c = false) (h : a ++ x = b ++ y) : a = b ∧ x = y := by
  have stops {z : List Char} (hz : ∀ c ∈ z.head?, p c = false) : z.takeWhile p = [] := by
    cases z with
    | nil => rfl
    | cons c z => rw [List.takeWhile_cons_of_neg (by simp [hz c rfl])]
  have same : a = b := by
    have := congrArg (List.takeWhile p) h
    rwa [List.takeWhile_append_of_pos ha, List.takeWhile_append_of_pos hb, stops hx, stops hy, List.append_nil,
      List.append_nil] at this
  subst same
  exact ⟨rfl, List.append_cancel_left h⟩

/-- The characters of which numbers are made. -/
def isNumeral (c : Char) : Bool := c.isDigit || c == '-' || c == '+'

theorem mem_toString {n : Int} {c : Char} (h : c ∈ (toString n).toList) : c.isDigit = true ∨ c = '-' := by
  have digit {k : Nat} (hc : c ∈ k.repr.toList) : c.isDigit = true := by
    rw [Nat.toList_repr] at hc
    exact Nat.isDigit_of_mem_toDigits (by decide) (by decide) hc
  cases n with
  | ofNat k => exact .inl (digit h)
  | negSucc k =>
    have e : toString (Int.negSucc k) = "-" ++ (k + 1).repr := rfl
    rw [e, String.toList_append, List.mem_append] at h
    rcases h with h | h
    · exact .inr (List.mem_singleton.1 h)
    · exact .inl (digit h)

theorem isNumeral_toString {n : Int} : ∀ c ∈ (toString n).toList, isNumeral c = true := by
  intro c hc
  rcases mem_toString hc with digit | rfl
  · rw [isNumeral, digit]
    rfl
  · rfl

theorem plus_not_mem_toString (n : Int) : '+' ∉ (toString n).toList := by
  intro mem
  rcases mem_toString mem with digit | minus
  · exact absurd digit (by decide)
  · exact absurd minus (by decide)

theorem isNumeral_signed {n : Int8} : ∀ c ∈ (signed n).toList, isNumeral c = true := by
  intro c hc
  rw [signed] at hc
  split at hc
  · exact isNumeral_toString c hc
  · rw [String.toList_append, List.mem_append] at hc
    rcases hc with hc | hc
    · rw [List.mem_singleton.1 hc]
      rfl
    · exact isNumeral_toString c hc

theorem eq_of_toString_int8 {m n : Int8} (h : toString m.toInt = toString n.toInt) : m = n :=
  Int8.toInt_inj.1 (Int.repr_inj.1 h)

theorem eq_of_toString_int32 {m n : Int32} (h : toString m.toInt = toString n.toInt) : m = n :=
  Int32.toInt_inj.1 (Int.repr_inj.1 h)

theorem signed_injective {m n : Int8} (h : signed m = signed n) : m = n := by
  have plus {a b : Int} (same : toString a = "+" ++ toString b) : False := by
    refine plus_not_mem_toString a ?_
    rw [same]
    simp
  rw [signed, signed] at h
  split at h
  · split at h
    · exact eq_of_toString_int8 h
    · exact (plus h).elim
  · split at h
    · exact (plus h.symm).elim
    · refine eq_of_toString_int8 (String.toList_inj.1 ?_)
      simpa using congrArg String.toList h

/-- The name of a cell shows where it ends. -/
theorem cellName_append_inj {a b : Int8} {x y : List Char}
    (h : (cellName a).toList ++ x = (cellName b).toList ++ y) : a = b ∧ x = y := by
  have name (o : Int8) (z : List Char) :
      (cellName o).toList ++ z = '[' :: 'p' :: ((signed o).toList ++ ']' :: z) := by
    simp [cellName]
  have close (z : List Char) : ∀ c ∈ (']' :: z).head?, isNumeral c = false := by
    rintro c ⟨⟩
    rfl
  rw [name, name, List.cons.injEq, List.cons.injEq] at h
  obtain ⟨sign, rest⟩ := eq_of_append_eq isNumeral_signed isNumeral_signed (close x) (close y) h.2.2
  exact ⟨signed_injective (String.toList_inj.1 sign), (List.cons.inj rest).2⟩

/-- What changes a cell names it twice. -/
theorem assignment_append_inj {a b : Int8} {x y : List Char}
    (h : (cellName a).toList ++ (" <- ".toList ++ ((cellName a).toList ++ x))
      = (cellName b).toList ++ (" <- ".toList ++ ((cellName b).toList ++ y))) : a = b ∧ x = y := by
  obtain ⟨rfl, rest⟩ := cellName_append_inj h
  exact ⟨rfl, (cellName_append_inj (List.append_cancel_left rest)).2⟩

/-- The entries of a transfer, as they follow each other on its line. -/
theorem entries_injective {entries entries' : List (Int8 × Int8)}
    (h : (entries.flatMap fun e => ' ' :: ((cellName e.1).toList ++ '*' :: (toString e.2.toInt).toList))
      = entries'.flatMap fun e => ' ' :: ((cellName e.1).toList ++ '*' :: (toString e.2.toInt).toList)) :
    entries = entries' := by
  have next (l : List (Int8 × Int8)) :
      ∀ c ∈ (l.flatMap fun e => ' ' :: ((cellName e.1).toList ++ '*' :: (toString e.2.toInt).toList)).head?,
        isNumeral c = false := by
    intro c hc
    cases l with
    | nil => cases hc
    | cons e l =>
      cases hc
      rfl
  induction entries generalizing entries' with
  | nil =>
    cases entries' with
    | nil => rfl
    | cons e' l' => cases h
  | cons e l ih =>
    cases entries' with
    | nil => cases h
    | cons e' l' =>
      obtain ⟨offset, weight⟩ := e
      obtain ⟨offset', weight'⟩ := e'
      simp only [List.flatMap_cons, List.cons_append, List.append_assoc, List.cons.injEq, true_and] at h
      obtain ⟨rfl, rest⟩ := cellName_append_inj h
      obtain ⟨number, later⟩ :=
        eq_of_append_eq isNumeral_toString isNumeral_toString (next l) (next l') (List.cons.inj rest).2
      obtain rfl := eq_of_toString_int8 (String.toList_inj.1 number)
      rw [ih later]

/-! ### The line of an instruction -/

namespace Instruction

/-- The instruction without its body. -/
def hollow : Instruction → Instruction
  | loop _ => loop []
  | block _ => block []
  | i => i

/-- The cell that an instruction names as what it changes, and what is written behind its second name. -/
def assignment? : Instruction → Option (Int8 × List Char)
  | add delta offset => some (offset, " + #".toList ++ (toString delta.toInt).toList)
  | closed (.transferAdd target) => some (target, " + [p]; zro".toList)
  | closed (.transferSub target) => some (target, " - [p]; zro".toList)
  | _ => none

/-- The first two characters of the line of an instruction. -/
def initials : Instruction → List Char
  | move _ => ['p', ' ']
  | add _ _ => ['[', 'p']
  | print => ['p', 'u']
  | read => ['g', 'e']
  | seek _ => ['s', 'e']
  | closed .clear => ['z', 'r']
  | closed (.transferAdd _) => ['[', 'p']
  | closed (.transferSub _) => ['[', 'p']
  | closed .multiply => ['m', 'u']
  | closed .exponent => ['p', 'o']
  | closed .divide => ['d', 'i']
  | closed (.weighted _) => ['w', 't']
  | loop _ => ['l', 'o']
  | block _ => ['b', 'l']

/-- What is known of an instruction from the first two characters of its line. -/
def Fits (i : Instruction) : List Char → Prop
  | ['p', ' '] => ∃ amount, i = move amount
  | ['[', 'p'] => ∃ target change, i.assignment? = some (target, change)
  | ['p', 'u'] => i = print
  | ['g', 'e'] => i = read
  | ['s', 'e'] => ∃ step, i = seek step
  | ['z', 'r'] => i = closed .clear
  | ['m', 'u'] => i = closed .multiply
  | ['p', 'o'] => i = closed .exponent
  | ['d', 'i'] => i = closed .divide
  | ['w', 't'] => ∃ entries, i = closed (.weighted entries)
  | ['l', 'o'] => ∃ body, i = loop body
  | ['b', 'l'] => ∃ body, i = block body
  | _ => False

theorem fits_initials (i : Instruction) : i.Fits i.initials := by
  cases i with
  | move amount => exact ⟨amount, rfl⟩
  | add delta offset => exact ⟨offset, _, rfl⟩
  | seek step => exact ⟨step, rfl⟩
  | closed form =>
    cases form with
    | transferAdd target => exact ⟨target, _, rfl⟩
    | transferSub target => exact ⟨target, _, rfl⟩
    | weighted entries => exact ⟨entries, rfl⟩
    | _ => rfl
  | loop body => exact ⟨body, rfl⟩
  | block body => exact ⟨body, rfl⟩
  | _ => rfl

theorem take_listing (i : Instruction) : i.listing.toList.take 2 = i.initials := by
  cases i with
  | closed form => cases form <;> simp [listing, ClosedForm.listing, initials, cellName]
  | _ => simp [listing, initials, cellName]

variable {i j : Instruction} {target target' : Int8} {change change' : List Char}

theorem assignment?_eq_some (h : i.assignment? = some (target, change)) :
    (∃ delta, i = add delta target ∧ change = " + #".toList ++ (toString delta.toInt).toList) ∨
      (i = closed (.transferAdd target) ∧ change = " + [p]; zro".toList) ∨
      (i = closed (.transferSub target) ∧ change = " - [p]; zro".toList) := by
  unfold assignment? at h
  split at h
  · cases h
    exact .inl ⟨_, rfl, rfl⟩
  · cases h
    exact .inr (.inl ⟨rfl, rfl⟩)
  · cases h
    exact .inr (.inr ⟨rfl, rfl⟩)
  · cases h

theorem toList_listing_of_assignment (h : i.assignment? = some (target, change)) :
    i.listing.toList = (cellName target).toList ++ (" <- ".toList ++ ((cellName target).toList ++ change)) := by
  rcases assignment?_eq_some h with ⟨delta, rfl, rfl⟩ | ⟨rfl, rfl⟩ | ⟨rfl, rfl⟩
  · simp only [listing, String.toList_append, List.append_assoc]
  · simp only [listing, ClosedForm.listing, String.toList_append, List.append_assoc]
  · simp only [listing, ClosedForm.listing, String.toList_append, List.append_assoc]

theorem eq_of_assignment (h : i.assignment? = some (target, change)) (h' : j.assignment? = some (target, change)) :
    i = j := by
  rcases assignment?_eq_some h with ⟨delta, rfl, first⟩ | ⟨rfl, first⟩ | ⟨rfl, first⟩
  · rcases assignment?_eq_some h' with ⟨delta', rfl, second⟩ | ⟨rfl, second⟩ | ⟨rfl, second⟩
    · have number := List.append_cancel_left (first.symm.trans second)
      rw [eq_of_toString_int8 (String.toList_inj.1 number)]
    · simp [first] at second
    · simp [first] at second
  · rcases assignment?_eq_some h' with ⟨delta', rfl, second⟩ | ⟨rfl, second⟩ | ⟨rfl, second⟩
    · simp [first] at second
    · rfl
    · simp [first] at second
  · rcases assignment?_eq_some h' with ⟨delta', rfl, second⟩ | ⟨rfl, second⟩ | ⟨rfl, second⟩
    · simp [first] at second
    · simp [first] at second
    · rfl

theorem eq_of_listing_of_assignment (h : i.listing = j.listing) (hi : i.assignment? = some (target, change))
    (hj : j.assignment? = some (target', change')) : i = j := by
  have text := congrArg String.toList h
  rw [toList_listing_of_assignment hi, toList_listing_of_assignment hj] at text
  obtain ⟨rfl, rfl⟩ := assignment_append_inj text
  exact eq_of_assignment hi hj

theorem toList_listing_weighted (entries : List (Int8 × Int8)) : (closed (.weighted entries)).listing.toList
    = "wtr".toList
      ++ entries.flatMap fun e => ' ' :: ((cellName e.1).toList ++ '*' :: (toString e.2.toInt).toList) := by
  rw [listing, ClosedForm.listing, String.toList_append]
  congr 1
  induction entries with
  | nil => rfl
  | cons e l ih =>
    rw [List.map_cons, String.join_cons, String.toList_append, ih, List.flatMap_cons]
    simp [String.toList_append]

/-- But for bodies, an instruction can be told from its line. -/
theorem hollow_of_listing (h : i.listing = j.listing) : i.hollow = j.hollow := by
  have text := congrArg String.toList h
  have fits : j.Fits i.initials := by
    rw [← take_listing, h, take_listing]
    exact j.fits_initials
  cases i with
  | move amount =>
    obtain ⟨amount', rfl⟩ := fits
    have number : (toString amount.toInt).toList = (toString amount'.toInt).toList := by simpa [listing] using text
    rw [eq_of_toString_int32 (String.toList_inj.1 number)]
  | seek step =>
    obtain ⟨step', rfl⟩ := fits
    have number : (toString step.toInt).toList = (toString step'.toInt).toList := by simpa [listing] using text
    rw [eq_of_toString_int32 (String.toList_inj.1 number)]
  | add delta offset =>
    obtain ⟨target, change, hj⟩ := fits
    rw [eq_of_listing_of_assignment h rfl hj]
  | closed form =>
    cases form with
    | transferAdd target =>
      obtain ⟨target', change, hj⟩ := fits
      rw [eq_of_listing_of_assignment h rfl hj]
    | transferSub target =>
      obtain ⟨target', change, hj⟩ := fits
      rw [eq_of_listing_of_assignment h rfl hj]
    | weighted entries =>
      obtain ⟨entries', rfl⟩ := fits
      rw [toList_listing_weighted, toList_listing_weighted] at text
      rw [entries_injective (List.append_cancel_left text)]
    | _ =>
      obtain rfl : j = _ := fits
      rfl
  | loop body =>
    obtain ⟨body', rfl⟩ := fits
    rfl
  | block body =>
    obtain ⟨body', rfl⟩ := fits
    rfl
  | _ =>
    obtain rfl : j = _ := fits
    rfl

/-- An instruction without a body can be told from its line. -/
theorem eq_of_hollow (h : i.hollow = j.hollow) (plain : i.body? = none) : i = j := by
  have whole : i.hollow = i := by
    cases i with
    | loop body => cases plain
    | block body => cases plain
    | _ => rfl
  rw [whole] at h
  subst h
  cases j with
  | loop body => cases plain
  | block body => cases plain
  | _ => rfl

theorem eq_of_hollow_of_body? {body : Program} (h : i.hollow = j.hollow) (hi : i.body? = some body) :
    ∃ body', j.body? = some body' ∧ (body = body' → i = j) := by
  cases i with
  | loop inner =>
    cases hi
    cases j with
    | loop body' => exact ⟨body', rfl, congrArg loop⟩
    | _ => cases h
  | block inner =>
    cases hi
    cases j with
    | block body' => exact ⟨body', rfl, congrArg block⟩
    | _ => cases h
  | _ => cases hi

/-! ### The lines of a program -/

theorem lines_of_body? (depth : Nat) {body : Program} (h : i.body? = some body) :
    i.lines depth = ⟨depth, i.listing⟩ :: (Program.lines (depth + 1) body ++ [⟨depth, "end"⟩]) := by
  cases i with
  | loop body' =>
    cases h
    rw [lines, listing]
  | block body' =>
    cases h
    rw [lines, listing]
  | _ => cases h

theorem lines_of_plain (depth : Nat) (plain : i.body? = none) : i.lines depth = [⟨depth, i.listing⟩] := by
  cases i with
  | loop body => cases plain
  | block body => cases plain
  | _ => rfl

theorem exists_lines (depth : Nat) (i : Instruction) : ∃ inner, i.lines depth = ⟨depth, i.listing⟩ :: inner := by
  cases h : i.body? with
  | none => exact ⟨[], lines_of_plain depth h⟩
  | some body => exact ⟨_, lines_of_body? depth h⟩

variable {depth : Nat} {r r' : List Line}

theorem hollow_of_lines (h : i.lines depth ++ r = j.lines depth ++ r') : i.hollow = j.hollow := by
  obtain ⟨inner, hi⟩ := i.exists_lines depth
  obtain ⟨inner', hj⟩ := j.exists_lines depth
  rw [hi, hj, List.cons_append, List.cons_append, List.cons.injEq, Line.mk.injEq] at h
  exact hollow_of_listing h.1.2

theorem lines_append_inj_of_plain (plain : i.body? = none) (h : i.lines depth ++ r = j.lines depth ++ r') :
    i = j ∧ r = r' := by
  obtain rfl := eq_of_hollow (hollow_of_lines h) plain
  exact ⟨rfl, List.append_cancel_left h⟩

end Instruction

namespace Program

/-- What can follow the lines of a body: nothing, or a line that stands further out. -/
def Below (depth : Nat) (rest : List Line) : Prop := ∀ l ∈ rest.head?, l.depth < depth

theorem not_below_lines (depth : Nat) (i : Instruction) (rest : List Line) :
    ¬ Below depth (i.lines depth ++ rest) := by
  intro below
  obtain ⟨inner, h⟩ := i.exists_lines depth
  rw [h] at below
  exact absurd (below _ rfl) (Nat.lt_irrefl depth)

/-- If the lines of a body show where they end, so do those of an instruction with this body. -/
theorem lines_append_inj_of_body {i j : Instruction} {body : Program} {depth : Nat} {r r' : List Line}
    (hi : i.body? = some body) (h : i.lines depth ++ r = j.lines depth ++ r')
    (inside : ∀ q s s', Below (depth + 1) s → Below (depth + 1) s' →
      lines (depth + 1) body ++ s = lines (depth + 1) q ++ s' → body = q ∧ s = s') : i = j ∧ r = r' := by
  obtain ⟨body', hj, eq⟩ := Instruction.eq_of_hollow_of_body? (Instruction.hollow_of_lines h) hi
  rw [Instruction.lines_of_body? depth hi, Instruction.lines_of_body? depth hj, List.cons_append, List.cons_append,
    List.append_assoc, List.append_assoc] at h
  have closed (rest : List Line) : Below (depth + 1) ([⟨depth, "end"⟩] ++ rest) := by
    rintro l ⟨⟩
    exact Nat.lt_succ_self depth
  obtain ⟨same, later⟩ := inside body' _ _ (closed r) (closed r') (List.cons.inj h).2
  exact ⟨eq same, List.append_cancel_left later⟩

mutual

/-- The lines of an instruction show where they end. -/
theorem instruction_lines_append_inj : (i j : Instruction) → (depth : Nat) → (r r' : List Line) →
    i.lines depth ++ r = j.lines depth ++ r' → i = j ∧ r = r'
  | .loop body, _, depth, _, _, h =>
    lines_append_inj_of_body rfl h fun q s s' => lines_append_inj body q (depth + 1) s s'
  | .block body, _, depth, _, _, h =>
    lines_append_inj_of_body rfl h fun q s s' => lines_append_inj body q (depth + 1) s s'
  | .move _, _, _, _, _, h => Instruction.lines_append_inj_of_plain rfl h
  | .add _ _, _, _, _, _, h => Instruction.lines_append_inj_of_plain rfl h
  | .print, _, _, _, _, h => Instruction.lines_append_inj_of_plain rfl h
  | .read, _, _, _, _, h => Instruction.lines_append_inj_of_plain rfl h
  | .seek _, _, _, _, _, h => Instruction.lines_append_inj_of_plain rfl h
  | .closed _, _, _, _, _, h => Instruction.lines_append_inj_of_plain rfl h

/-- The lines of a program show where they end, if what follows stands further out. -/
theorem lines_append_inj : (p q : List Instruction) → (depth : Nat) → (r r' : List Line) → Below depth r →
    Below depth r' → lines depth p ++ r = lines depth q ++ r' → p = q ∧ r = r'
  | [], [], _, _, _, _, _, h => ⟨rfl, h⟩
  | [], j :: q, depth, r, r', below, _, h => by
    rw [lines, List.nil_append, lines, List.append_assoc] at h
    rw [h] at below
    exact absurd below (not_below_lines depth j _)
  | i :: p, [], depth, r, r', _, below, h => by
    rw [lines, List.nil_append, lines, List.append_assoc] at h
    rw [← h] at below
    exact absurd below (not_below_lines depth i _)
  | i :: p, j :: q, depth, r, r', below, below', h => by
    rw [lines, lines, List.append_assoc, List.append_assoc] at h
    obtain ⟨rfl, later⟩ := instruction_lines_append_inj i j depth _ _ h
    obtain ⟨rfl, rfl⟩ := lines_append_inj p q depth r r' below below' later
    exact ⟨rfl, rfl⟩

end

theorem lines_injective {depth : Nat} {p q : Program} (h : lines depth p = lines depth q) : p = q := by
  refine (lines_append_inj p q depth [] [] ?_ ?_ (by rw [h])).1
  · rintro l ⟨⟩
  · rintro l ⟨⟩

end Program

/-! ### Counting lines -/

/-- The number of loops and blocks in an instruction, itself included. -/
def Instruction.bodies (i : Instruction) : Nat := i.preorder.countP fun k => k.body?.isSome

/-- The number of loops and blocks in a program, nested ones included. -/
def Program.bodies (p : Program) : Nat := (Program.preorder p).countP fun k => k.body?.isSome

namespace Program

theorem bodies_cons (i : Instruction) (p : Program) : bodies (i :: p) = i.bodies + bodies p := by
  rw [bodies, preorder, List.countP_append]
  rfl

theorem bodies_of_body? {i : Instruction} {body : Program} (h : i.body? = some body) :
    i.preorder = i :: preorder body ∧ i.bodies = bodies body + 1 := by
  have inside : i.preorder = i :: preorder body := by
    cases i with
    | loop inner =>
      cases h
      rw [Instruction.preorder]
    | block inner =>
      cases h
      rw [Instruction.preorder]
    | _ => cases h
  refine ⟨inside, ?_⟩
  rw [Instruction.bodies, inside, List.countP_cons, h]
  rfl

theorem bodies_of_plain {i : Instruction} (plain : i.body? = none) : i.preorder = [i] ∧ i.bodies = 0 := by
  cases i with
  | loop body => cases plain
  | block body => cases plain
  | _ => exact ⟨rfl, rfl⟩

mutual

theorem length_instruction_preorder : (i : Instruction) → i.preorder.length = i.size
  | .loop body => by rw [Instruction.preorder, Instruction.size, List.length_cons, length_preorder body]
  | .block body => by rw [Instruction.preorder, Instruction.size, List.length_cons, length_preorder body]
  | .move _ | .add _ _ | .print | .read | .seek _ | .closed _ => rfl

theorem length_preorder : (p : List Instruction) → (preorder p).length = size p
  | [] => rfl
  | i :: p => by rw [preorder, size, List.length_append, length_instruction_preorder i, length_preorder p]

end

/-- The lines are those of the instructions and of so many ends, in some order. -/
def Written (ls : List Line) (is : List Instruction) (ends : Nat) : Prop :=
  (ls.map Line.text).Perm (is.map Instruction.listing ++ List.replicate ends "end")

theorem Written.append {ls ls' : List Line} {is is' : List Instruction} {m n : Nat} (h : Written ls is m)
    (h' : Written ls' is' n) : Written (ls ++ ls') (is ++ is') (m + n) := by
  rw [Written, List.map_append, List.map_append, List.replicate_add]
  refine (List.Perm.append h h').trans ?_
  rw [List.append_assoc, List.append_assoc]
  refine .append_left _ ?_
  rw [← List.append_assoc, ← List.append_assoc]
  exact .append_right _ List.perm_append_comm

theorem Written.enclose {i : Instruction} {body : Program} {depth : Nat} (hi : i.body? = some body)
    (inside : Written (lines (depth + 1) body) (preorder body) (bodies body)) :
    Written (i.lines depth) i.preorder i.bodies := by
  obtain ⟨preorder, bodies⟩ := bodies_of_body? hi
  have ends : List.replicate (Program.bodies body + 1) "end"
      = List.replicate (Program.bodies body) "end" ++ ["end"] :=
    List.replicate_succ'
  have texts : (i.lines depth).map Line.text = i.listing :: ((lines (depth + 1) body).map Line.text ++ ["end"]) := by
    rw [Instruction.lines_of_body? depth hi, List.map_cons, List.map_append]
    rfl
  rw [Written, texts, preorder, bodies, ends, List.map_cons, ← List.append_assoc, List.cons_append]
  exact .cons _ (.append_right _ inside)

theorem written_of_plain {i : Instruction} {depth : Nat} (plain : i.body? = none) :
    Written (i.lines depth) i.preorder i.bodies := by
  obtain ⟨preorder, bodies⟩ := bodies_of_plain plain
  rw [Written, Instruction.lines_of_plain depth plain, preorder, bodies]
  exact .refl _

mutual

theorem written_instruction : (i : Instruction) → (depth : Nat) → Written (i.lines depth) i.preorder i.bodies
  | .loop body, depth => .enclose rfl (written_program body (depth + 1))
  | .block body, depth => .enclose rfl (written_program body (depth + 1))
  | .move _, _ => written_of_plain rfl
  | .add _ _, _ => written_of_plain rfl
  | .print, _ => written_of_plain rfl
  | .read, _ => written_of_plain rfl
  | .seek _, _ => written_of_plain rfl
  | .closed _, _ => written_of_plain rfl

theorem written_program : (p : List Instruction) → (depth : Nat) → Written (lines depth p) (preorder p) (bodies p)
  | [], _ => .refl _
  | i :: p, depth => by
    rw [lines, preorder, bodies_cons]
    exact (written_instruction i depth).append (written_program p depth)

end

end Program

/-! ### Tidiness -/

theorem newline_not_mem_repr (n : Int) : '\n' ∉ n.repr.toList := fun mem =>
  absurd (isNumeral_toString _ mem) (by decide)

theorem newline_not_mem_cellName (offset : Int8) : '\n' ∉ (cellName offset).toList := by
  have sign : '\n' ∉ (signed offset).toList := fun mem => absurd (isNumeral_signed _ mem) (by decide)
  simp [cellName, sign]

theorem newline_not_mem_closedForm (form : ClosedForm) : '\n' ∉ form.listing.toList := by
  cases form with
  | transferAdd target => simp [ClosedForm.listing, newline_not_mem_cellName]
  | transferSub target => simp [ClosedForm.listing, newline_not_mem_cellName]
  | weighted entries =>
    have line := Instruction.toList_listing_weighted entries
    rw [Instruction.listing] at line
    rw [line]
    simp [newline_not_mem_cellName, newline_not_mem_repr]
  | _ => simp [ClosedForm.listing]

theorem newline_not_mem_listing (i : Instruction) : '\n' ∉ i.listing.toList := by
  cases i with
  | move amount => simp [Instruction.listing, newline_not_mem_repr]
  | add delta offset => simp [Instruction.listing, newline_not_mem_cellName, newline_not_mem_repr]
  | seek step => simp [Instruction.listing, newline_not_mem_repr]
  | closed form => exact newline_not_mem_closedForm form
  | _ => simp [Instruction.listing]

theorem exists_initials (i : Instruction) : ∃ c d, i.initials = [c, d] ∧ c ≠ ' ' ∧ [c, d] ≠ ['e', 'n'] := by
  cases i with
  | closed form => cases form <;> exact ⟨_, _, rfl, by decide, by decide⟩
  | _ => exact ⟨_, _, rfl, by decide, by decide⟩

/-- No instruction is written as the end of a body. -/
theorem listing_ne_end (i : Instruction) : i.listing ≠ "end" := by
  intro same
  obtain ⟨c, d, initials, -, other⟩ := exists_initials i
  rw [← i.take_listing, same] at initials
  exact other (initials.symm.trans (by simp))

theorem tidy_listing (depth : Nat) (i : Instruction) : Line.Tidy ⟨depth, i.listing⟩ := by
  refine ⟨newline_not_mem_listing i, ?_⟩
  obtain ⟨c, d, initials, visible, -⟩ := exists_initials i
  have start := congrArg List.head? i.take_listing
  rw [List.head?_take, if_neg (by decide), initials] at start
  show i.listing.toList.head?.any (· != ' ') = true
  rw [start]
  simpa using visible

theorem tidy_end (depth : Nat) : Line.Tidy ⟨depth, "end"⟩ := ⟨by simp, by simp⟩

/-- Every line of a program is tidy. -/
theorem tidy_lines (depth : Nat) (p : Program) : ∀ l ∈ Program.lines depth p, l.Tidy := by
  intro l hl
  have mem := (Program.written_program p depth).mem_iff.1 (List.mem_map_of_mem hl)
  obtain ⟨d, text⟩ := l
  rcases List.mem_append.1 mem with mem | mem
  · obtain ⟨i, -, rfl⟩ := List.mem_map.1 mem
    exact tidy_listing d i
  · obtain rfl := List.eq_of_mem_replicate mem
    exact tidy_end d

namespace Program

theorem length_lines (depth : Nat) (p : Program) : (lines depth p).length = size p + bodies p := by
  have length := (written_program p depth).length_eq
  rwa [List.length_map, List.length_append, List.length_map, List.length_replicate, length_preorder] at length

theorem countP_end (depth : Nat) (p : Program) : ((lines depth p).countP fun l => l.text == "end") = bodies p := by
  have none : ((preorder p).map Instruction.listing).countP (· == "end") = 0 := by
    rw [List.countP_eq_zero]
    intro text mem
    obtain ⟨i, -, rfl⟩ := List.mem_map.1 mem
    simpa using listing_ne_end i
  have count := (written_program p depth).countP_eq (· == "end")
  rw [List.countP_map, List.countP_append, none, Nat.zero_add] at count
  exact count.trans List.count_replicate_self

end Program

/-- A program can be told from its listing.  The listing has as many lines as the program has instructions, and one
more for each loop and each block.  These ends, and no other line, read `end` behind their indentation. -/
theorem listing_is_lossless :
    (∀ p q : Program, p.listing = q.listing → p = q) ∧
      ∀ p : Program, (linesOf p.listing.toList).length = Program.size p + p.bodies ∧
        ((linesOf p.listing.toList).countP fun line => unindent line == "end".toList) = p.bodies := by
  have single (p : Program) : ∀ l ∈ Program.lines 0 p, '\n' ∉ l.text.toList :=
    fun l hl => (tidy_lines 0 p l hl).single
  refine ⟨fun p q same => ?_, fun p => ⟨?_, ?_⟩⟩
  · exact Program.lines_injective (Line.renderAll_injective (tidy_lines 0 p) (tidy_lines 0 q) same)
  · rw [Program.listing, Line.linesOf_renderAll (single p), List.length_map, Program.length_lines]
  · rw [Program.listing, Line.linesOf_renderAll (single p), List.countP_map, ← Program.countP_end 0 p]
    refine List.countP_congr fun l hl => ?_
    rw [Function.comp_apply, (tidy_lines 0 p l hl).unindent_eq, beq_iff_eq, beq_iff_eq, String.toList_inj]

end TapeLang
