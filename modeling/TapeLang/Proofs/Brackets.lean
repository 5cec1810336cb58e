import TapeLang.Proofs.Scanning

/-!
# Which texts are accepted

The brackets of a text decide whether it is accepted and which error is reported otherwise
(`accepts_iff_brackets_match`).  Everything is said about the bytes of the text as it is given: the depth before a
byte, the first byte that offends, which brackets match.  While a text is scanned, the positions that are kept are
those of the brackets that nothing has closed so far, the last one first (`Opened`).
-/

namespace TapeLang

namespace Brackets

def opening : UInt8 := '['.toUInt8

def closing : UInt8 := ']'.toUInt8

/-- How many more brackets were opened than closed before the byte at a position. -/
def depth (source : List UInt8) (k : Nat) : Int :=
  (source.take k).count opening - (source.take k).count closing

/-- The byte closes what was not opened, or opens a loop too many inside each other. -/
def Offence (source : List UInt8) (k : Nat) : Prop :=
  source[k]? = some closing ∧ depth source k = 0 ∨ source[k]? = some opening ∧ depth source k = 256

def FirstOffence (source : List UInt8) (k : Nat) : Prop := Offence source k ∧ ∀ j < k, ¬ Offence source j

/-- The two brackets belong together: behind the second one the depth is what it was before the first, and in between
it is greater. -/
structure Match (source : List UInt8) (i j : Nat) : Prop where
  opens : source[i]? = some opening
  closes : source[j]? = some closing
  before : i < j
  back : depth source (j + 1) = depth source i
  deeper : ∀ k, i < k → k ≤ j → depth source i < depth source k

/-- Nothing closes what is opened there. -/
def Unclosed (source : List UInt8) (i : Nat) : Prop := source[i]? = some opening ∧ ∀ j, ¬ Match source i j

def LastUnclosed (source : List UInt8) (i : Nat) : Prop := Unclosed source i ∧ ∀ j, i < j → ¬ Unclosed source j

variable {source : List UInt8} {n : Nat} {opened outer : List Nat}

/-! ### The depth -/

theorem depth_succ {byte : UInt8} (h : source[n]? = some byte) :
    depth source (n + 1)
      = depth source n + (if byte = opening then 1 else 0) - (if byte = closing then 1 else 0) := by
  rw [depth, depth, List.take_add_one, h, List.count_append, List.count_append]
  simp only [Option.toList_some, List.count_singleton, beq_iff_eq]
  split <;> split <;> omega

theorem depth_opening (h : source[n]? = some opening) : depth source (n + 1) = depth source n + 1 := by
  rw [depth_succ h, if_pos rfl, if_neg (by decide)]
  omega

theorem depth_closing (h : source[n]? = some closing) : depth source (n + 1) = depth source n - 1 := by
  rw [depth_succ h, if_neg (by decide), if_pos rfl]
  omega

/-! ### The positions that are kept -/

/-- Every position stands at the depth of those behind it in the list, and since then the text has been deeper. -/
def Levels (source : List UInt8) (n : Nat) : List Nat → Prop
  | [] => True
  | p :: outer =>
    depth source p = outer.length ∧ (∀ l, p < l → l ≤ n → outer.length < depth source l) ∧ Levels source n outer

/-- Before position `n` there is no offence, and the list holds the brackets open there. -/
structure Opened (source : List UInt8) (n : Nat) (opened : List Nat) : Prop where
  depth_eq : depth source n = opened.length
  clean : ∀ k < n, ¬ Offence source k
  levels : Levels source n opened
  shallow : opened.length ≤ 256
  descending : opened.Pairwise (· > ·)
  mem_iff : ∀ p, p ∈ opened ↔ p < n ∧ source[p]? = some opening ∧ ∀ j < n, ¬ Match source p j

theorem Levels.step (h : Levels source n opened) (deep : opened.length ≤ depth source (n + 1)) :
    Levels source (n + 1) opened := by
  induction opened with
  | nil => trivial
  | cons p outer ih =>
    obtain ⟨level, deeper, h⟩ := h
    rw [List.length_cons] at deep
    refine ⟨level, ?_, ih h (by omega)⟩
    intro l hp hl
    rcases Nat.lt_or_ge n l with hn | hn
    · obtain rfl : l = n + 1 := by omega
      omega
    · exact deeper l hp hn

theorem Levels.depth_lt (h : Levels source n opened) {p : Nat} (hp : p ∈ opened) :
    depth source p < opened.length := by
  induction opened with
  | nil => cases hp
  | cons q outer ih =>
    rw [List.length_cons]
    rcases List.mem_cons.1 hp with rfl | hp
    · rw [h.1]
      omega
    · have := ih h.2.2 hp
      omega

theorem opened_nil (source : List UInt8) : Opened source 0 [] := by
  refine ⟨rfl, nofun, trivial, by simp, List.Pairwise.nil, ?_⟩
  intro p
  simp

theorem Opened.clean_succ (h : Opened source n opened) (here : ¬ Offence source n) :
    ∀ k < n + 1, ¬ Offence source k := by
  intro k hk
  rcases Nat.lt_succ_iff_lt_or_eq.1 hk with hk | rfl
  · exact h.clean k hk
  · exact here

/-- A byte that is no bracket. -/
theorem Opened.other (h : Opened source n opened) {byte : UInt8} (here : source[n]? = some byte) (ho : byte ≠ opening)
    (hc : byte ≠ closing) : Opened source (n + 1) opened := by
  have same : depth source (n + 1) = depth source n := by
    rw [depth_succ here, if_neg ho, if_neg hc]
    omega
  have noOffence : ¬ Offence source n := by
    rintro (⟨h', _⟩ | ⟨h', _⟩)
    · exact hc (Option.some.inj (here.symm.trans h'))
    · exact ho (Option.some.inj (here.symm.trans h'))
  have levels := h.levels.step (Int.le_of_eq (same.trans h.depth_eq).symm)
  refine ⟨same.trans h.depth_eq, h.clean_succ noOffence, levels, h.shallow, h.descending, ?_⟩
  intro p
  rw [h.mem_iff]
  constructor
  · rintro ⟨hp, opens, none⟩
    refine ⟨by omega, opens, fun j hj hm => ?_⟩
    rcases Nat.lt_succ_iff_lt_or_eq.1 hj with hj | rfl
    · exact none j hj hm
    · exact hc (Option.some.inj (here.symm.trans hm.closes))
  · rintro ⟨hp, opens, none⟩
    refine ⟨?_, opens, fun j hj => none j (by omega)⟩
    rcases Nat.lt_succ_iff_lt_or_eq.1 hp with hp | rfl
    · exact hp
    · exact absurd (Option.some.inj (here.symm.trans opens)) ho

theorem Opened.push (h : Opened source n opened) (here : source[n]? = some opening) (room : opened.length < 256) :
    Opened source (n + 1) (n :: opened) := by
  have deep := depth_opening here
  have noOffence : ¬ Offence source n := by
    rintro (⟨h', _⟩ | ⟨_, h'⟩)
    · exact absurd (Option.some.inj (here.symm.trans h')) (by decide)
    · rw [h.depth_eq] at h'
      omega
  have levels : Levels source (n + 1) (n :: opened) := by
    refine ⟨h.depth_eq, ?_, h.levels.step (by rw [deep, h.depth_eq]; omega)⟩
    intro l hl hl'
    obtain rfl : l = n + 1 := by omega
    rw [deep, h.depth_eq]
    omega
  refine ⟨by rw [deep, h.depth_eq]; rfl, h.clean_succ noOffence, levels, room, ?_, ?_⟩
  · exact List.pairwise_cons.2 ⟨fun p hp => ((h.mem_iff p).1 hp).1, h.descending⟩
  · intro p
    rw [List.mem_cons, h.mem_iff]
    constructor
    · rintro (rfl | ⟨hp, opens, none⟩)
      · exact ⟨by omega, here, fun j hj hm => absurd hm.before (by omega)⟩
      · refine ⟨by omega, opens, fun j hj hm => ?_⟩
        rcases Nat.lt_succ_iff_lt_or_eq.1 hj with hj | rfl
        · exact none j hj hm
        · exact absurd (Option.some.inj (here.symm.trans hm.closes)) (by decide)
    · rintro ⟨hp, opens, none⟩
      rcases Nat.lt_succ_iff_lt_or_eq.1 hp with hp | rfl
      · exact .inr ⟨hp, opens, fun j hj => none j (by omega)⟩
      · exact .inl rfl

/-- A bracket that closes the last one opened. -/
theorem Opened.pop {p : Nat} (h : Opened source n (p :: outer)) (here : source[n]? = some closing) :
    Opened source (n + 1) outer := by
  have depth_eq := h.depth_eq
  rw [List.length_cons] at depth_eq
  have back : depth source (n + 1) = outer.length := by
    rw [depth_closing here, depth_eq]
    omega
  obtain ⟨level, deeper, levels⟩ := h.levels
  obtain ⟨above, descending⟩ := List.pairwise_cons.1 h.descending
  obtain ⟨hp, opens, -⟩ := (h.mem_iff p).1 (by simp)
  have closed : Match source p n := ⟨opens, here, hp, back.trans level.symm, by rw [level]; exact deeper⟩
  have noOffence : ¬ Offence source n := by
    rintro (⟨_, h'⟩ | ⟨h', _⟩)
    · omega
    · exact absurd (Option.some.inj (here.symm.trans h')) (by decide)
  have shallow : outer.length ≤ 256 := Nat.le_of_succ_le h.shallow
  refine ⟨back, h.clean_succ noOffence, levels.step (by omega), shallow, descending, ?_⟩
  intro q
  constructor
  · intro hq
    obtain ⟨hqn, opens, none⟩ := (h.mem_iff q).1 (List.mem_cons_of_mem _ hq)
    refine ⟨by omega, opens, fun j hj hm => ?_⟩
    rcases Nat.lt_succ_iff_lt_or_eq.1 hj with hj | rfl
    · exact none j hj hm
    · have := hm.back
      have := levels.depth_lt hq
      omega
  · rintro ⟨hq, opens, none⟩
    have hqn : q ≠ n := by
      rintro rfl
      exact absurd (Option.some.inj (here.symm.trans opens)) (by decide)
    have mem := (h.mem_iff q).2 ⟨by omega, opens, fun j hj => none j (by omega)⟩
    rcases List.mem_cons.1 mem with rfl | mem
    · exact absurd closed (none n (by omega))
    · exact mem

/-! ### The verdict -/

/-- What an outcome of the scan says about the brackets. -/
def Judged (source : List UInt8) : Except SourceError Unit → Prop
  | .ok () => (∀ k, ¬ Offence source k) ∧ ∀ i, ¬ Unclosed source i
  | .error (.strayClose k) => FirstOffence source k ∧ source[k]? = some closing
  | .error (.nestedTooDeep k limit) => FirstOffence source k ∧ source[k]? = some opening ∧ limit = 256
  | .error (.unclosedLoop i) => (∀ k, ¬ Offence source k) ∧ LastUnclosed source i
  | .error (.farOffset _ _) => False

/-- Behind the last byte there is neither an offence nor a bracket. -/
theorem Opened.judged_end (h : Opened source n opened) (stop : source.length ≤ n) :
    Judged source (checkBrackets opened []) := by
  have nothing {k : Nat} (hk : ¬ k < n) : source[k]? = none := List.getElem?_eq_none (by omega)
  have clean (k : Nat) : ¬ Offence source k := by
    by_cases hk : k < n
    · exact h.clean k hk
    · rw [Offence, nothing hk]
      simp
  have unclosed_iff (i : Nat) : Unclosed source i ↔ i ∈ opened := by
    rw [h.mem_iff]
    constructor
    · rintro ⟨opens, none⟩
      refine ⟨?_, opens, fun j _ => none j⟩
      by_cases hi : i < n
      · exact hi
      · rw [nothing hi] at opens
        cases opens
    · rintro ⟨_, opens, none⟩
      refine ⟨opens, fun j hm => ?_⟩
      by_cases hj : j < n
      · exact none j hj hm
      · have closes := hm.closes
        rw [nothing hj] at closes
        cases closes
  cases opened with
  | nil =>
    refine ⟨clean, fun i hi => ?_⟩
    have := (unclosed_iff i).1 hi
    cases this
  | cons p outer =>
    refine ⟨clean, (unclosed_iff p).2 (by simp), fun j hj hu => ?_⟩
    rcases List.mem_cons.1 ((unclosed_iff j).1 hu) with rfl | mem
    · omega
    · have := (List.pairwise_cons.1 h.descending).1 j mem
      omega

/-- From every position on, the scan comes to the right verdict. -/
theorem Opened.judged {rest : List UInt8} (h : Opened source n opened) (left : source.drop n = rest) :
    Judged source (checkBrackets opened (marksFrom n rest)) := by
  induction rest generalizing n opened with
  | nil => exact h.judged_end (List.drop_eq_nil_iff.1 left)
  | cons byte rest ih =>
    have here : source[n]? = some byte := by
      rw [← List.head?_drop, left]
      rfl
    have left' : source.drop (n + 1) = rest := by
      rw [← List.drop_drop, left]
      rfl
    rw [marksFrom]
    by_cases ho : byte = opening
    · subst ho
      show Judged source (if opened.length < maxNesting then checkBrackets (n :: opened) (marksFrom (n + 1) rest)
        else .error (.nestedTooDeep n maxNesting))
      split
      · next room => exact ih (h.push here room) left'
      · next full =>
        have shallow := h.shallow
        have full : opened.length = 256 := Nat.le_antisymm shallow (Nat.le_of_not_lt full)
        refine ⟨⟨.inr ⟨here, ?_⟩, h.clean⟩, here, rfl⟩
        rw [h.depth_eq, full]
        rfl
    · by_cases hc : byte = closing
      · subst hc
        cases opened with
        | nil => exact ⟨⟨.inl ⟨here, h.depth_eq⟩, h.clean⟩, here⟩
        | cons p outer => exact ih (h.pop here) left'
      · have later := ih (h.other here ho hc) left'
        split
        · next s hs =>
          have hs := Symbol.toByte_of_ofByte? hs
          cases s with
          | opening => exact absurd hs.symm ho
          | closing => exact absurd hs.symm hc
          | _ => exact later
        · exact later

theorem FirstOffence.unique {k l : Nat} (h : FirstOffence source k) (h' : FirstOffence source l) : k = l := by
  rcases Nat.lt_trichotomy k l with hlt | heq | hgt
  · exact absurd h.1 (h'.2 k hlt)
  · exact heq
  · exact absurd h'.1 (h.2 l hgt)

theorem LastUnclosed.unique {i j : Nat} (h : LastUnclosed source i) (h' : LastUnclosed source j) : i = j := by
  rcases Nat.lt_trichotomy i j with hlt | heq | hgt
  · exact absurd h'.1 (h.2 j hlt)
  · exact heq
  · exact absurd h.1 (h'.2 i hgt)

/-- The brackets of a text allow one verdict only. -/
theorem Judged.unique {r r' : Except SourceError Unit} (h : Judged source r) (h' : Judged source r') : r = r' := by
  have offends {k : Nat} (first : FirstOffence source k) (clean : ∀ k, ¬ Offence source k) : False := clean k first.1
  have differ {k l : Nat} (first : FirstOffence source k ∧ source[k]? = some closing)
      (second : FirstOffence source l ∧ source[l]? = some opening) : False := by
    rw [first.1.unique second.1] at first
    exact absurd (Option.some.inj (first.2.symm.trans second.2)) (by decide)
  match r, r' with
  | .ok (), .ok () => rfl
  | .ok (), .error (.strayClose _) | .ok (), .error (.nestedTooDeep _ _) => exact (offends h'.1 h.1).elim
  | .ok (), .error (.unclosedLoop i) => exact absurd h'.2.1 (h.2 i)
  | .error (.strayClose _), .ok () | .error (.nestedTooDeep _ _), .ok () => exact (offends h.1 h'.1).elim
  | .error (.unclosedLoop i), .ok () => exact absurd h.2.1 (h'.2 i)
  | .error (.strayClose _), .error (.strayClose _) => rw [h.1.unique h'.1]
  | .error (.strayClose _), .error (.nestedTooDeep _ _) => exact (differ h ⟨h'.1, h'.2.1⟩).elim
  | .error (.strayClose _), .error (.unclosedLoop _) => exact (offends h.1 h'.1).elim
  | .error (.nestedTooDeep _ _), .error (.strayClose _) => exact (differ h' ⟨h.1, h.2.1⟩).elim
  | .error (.nestedTooDeep _ _), .error (.nestedTooDeep _ _) => rw [h.1.unique h'.1, h.2.2, h'.2.2]
  | .error (.nestedTooDeep _ _), .error (.unclosedLoop _) => exact (offends h.1 h'.1).elim
  | .error (.unclosedLoop _), .error (.strayClose _) => exact (offends h'.1 h.1).elim
  | .error (.unclosedLoop _), .error (.nestedTooDeep _ _) => exact (offends h'.1 h.1).elim
  | .error (.unclosedLoop _), .error (.unclosedLoop _) => rw [h.2.unique h'.2]
  | .error (.farOffset _ _), _ => exact h.elim
  | _, .error (.farOffset _ _) => exact h'.elim

theorem judged_iff {r : Except SourceError Unit} : checkBrackets [] (marks source) = r ↔ Judged source r := by
  have judged : Judged source (checkBrackets [] (marks source)) := (opened_nil source).judged rfl
  constructor
  · rintro rfl
    exact judged
  · intro h
    exact judged.unique h

theorem scan_eq_error_iff {e : SourceError} :
    Scan.ofSource source = .error e ↔ checkBrackets [] (marks source) = .error e := by
  rw [Scan.ofSource_eq]
  cases checkBrackets [] (marks source) with
  | error e' => simp [Except.map]
  | ok _ => simp [Except.map]

theorem scan_eq_ok_iff : (∃ scan, Scan.ofSource source = .ok scan) ↔ checkBrackets [] (marks source) = .ok () := by
  rw [Scan.ofSource_eq]
  cases checkBrackets [] (marks source) with
  | error e' => simp [Except.map]
  | ok _ => simp [Except.map]

/-- A stray `]` or a `[` inside 256 others is reported where it is the first offence; without an offence the last `[`
that nothing closes is reported; and the texts without all that are accepted. -/
theorem accepts_iff_brackets_match (source : List UInt8) :
    (∀ k, Scan.ofSource source = .error (.strayClose k) ↔ FirstOffence source k ∧ source[k]? = some closing) ∧
    (∀ k, Scan.ofSource source = .error (.nestedTooDeep k 256) ↔
      FirstOffence source k ∧ source[k]? = some opening) ∧
    (∀ i, Scan.ofSource source = .error (.unclosedLoop i) ↔
      (∀ k, ¬ Offence source k) ∧ LastUnclosed source i) ∧
    ((∃ scan, Scan.ofSource source = .ok scan) ↔ (∀ k, ¬ Offence source k) ∧ ∀ i, ¬ Unclosed source i) := by
  refine ⟨fun k => ?_, fun k => ?_, fun i => ?_, ?_⟩
  · rw [scan_eq_error_iff, judged_iff]
    rfl
  · rw [scan_eq_error_iff, judged_iff]
    simp [Judged]
  · rw [scan_eq_error_iff, judged_iff]
    rfl
  · rw [scan_eq_ok_iff, judged_iff]
    rfl

end Brackets

end TapeLang
