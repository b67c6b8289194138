/-
Workflow.Proofs.Expr.Quotation — what stands in quotation marks.

A quotation is opened by either mark and closed by the next mark of the same
kind that no backslash takes with it. Closing braces count outside of
quotations only, and so do characters beyond ASCII: the first closing braces
are the end of a region, unless such a character comes before them.

* `Place`, `Place.after` — where a character stands, read off the text in
  front of it.
* `exposed` — the characters of a text outside of its quotations.
* `FirstPair` — the first two braces in a row that count.
* `Closes`, `Obstructed` — the first closing braces, and a character beyond
  ASCII that the search meets first.
* `findClose_eq_closed_iff`, `findClose_eq_crash_iff` — the search finds the
  one or the other.
-/
import Workflow.Expr.Template

namespace Workflow.Expr

/-! ## Places -/

/-- Where a character stands: outside of quotations, inside one that a mark has opened, or there
behind a backslash. -/
inductive Place where
  | outside
  | quoted (mark : Char)
  | escaped (mark : Char)
deriving DecidableEq, Repr

namespace Place

/-- The place behind a character. -/
def next : Place → Char → Place
  | .outside, c => if c = '\'' ∨ c = '"' then .quoted c else .outside
  | .quoted mark, c =>
    if c = '\\' then .escaped mark else if c = mark then .outside else .quoted mark
  | .escaped mark, _ => .quoted mark

/-- The place behind a text. -/
def after (place : Place) (cs : List Char) : Place := cs.foldl next place

@[simp] theorem after_cons (place : Place) (c : Char) (cs : List Char) :
    place.after (c :: cs) = (place.next c).after cs := rfl

@[simp] theorem after_append (place : Place) (as bs : List Char) :
    place.after (as ++ bs) = (place.after as).after bs := List.foldl_append

/-- A character that is no mark leaves the text outside of quotations. -/
theorem next_outside {c : Char} (h : ¬ (c = '\'' ∨ c = '"')) : outside.next c = .outside :=
  if_neg h

theorem next_outside_of_mark {c : Char} (h : c = '\'' ∨ c = '"') : outside.next c = .quoted c :=
  if_pos h

theorem next_quoted_backslash (mark : Char) : (quoted mark).next '\\' = .escaped mark := by
  simp [next]

theorem next_quoted_mark {mark : Char} (h : mark ≠ '\\') : (quoted mark).next mark = .outside :=
  (if_neg h).trans (if_pos rfl)

theorem next_quoted {mark c : Char} (hEscape : c ≠ '\\') (hMark : c ≠ mark) :
    (quoted mark).next c = .quoted mark :=
  (if_neg hEscape).trans (if_neg hMark)

theorem quoted_ne_outside (mark : Char) : quoted mark ≠ .outside := nofun

theorem escaped_ne_outside (mark : Char) : escaped mark ≠ .outside := nofun

/-- The place inside of the quotation that a mark has opened, or outside. -/
def ofMark? : Option Char → Place
  | none => .outside
  | some mark => .quoted mark

end Place

/-- The characters of a text that stand outside of its quotations, opening marks among them. -/
def exposed (place : Place) : List Char → List Char
  | [] => []
  | c :: rest =>
    if place = .outside then c :: exposed (place.next c) rest else exposed (place.next c) rest

theorem exposed_outside_cons (c : Char) (rest : List Char) :
    exposed .outside (c :: rest) = c :: exposed (Place.outside.next c) rest := if_pos rfl

theorem exposed_cons_of_ne {place : Place} (h : place ≠ .outside) (c : Char) (rest : List Char) :
    exposed place (c :: rest) = exposed (place.next c) rest := if_neg h

theorem exposed_append (place : Place) (as bs : List Char) :
    exposed place (as ++ bs) = exposed place as ++ exposed (place.after as) bs := by
  induction as generalizing place with
  | nil => rfl
  | cons c as ih =>
    rw [List.cons_append, Place.after_cons]
    by_cases hPlace : place = .outside
    · subst hPlace
      rw [exposed_outside_cons, exposed_outside_cons, ih, List.cons_append]
    · rw [exposed_cons_of_ne hPlace, exposed_cons_of_ne hPlace, ih]

/-- All characters outside of quotations are single bytes. -/
def Plain (place : Place) (cs : List Char) : Prop := ∀ c ∈ exposed place cs, c.toNat < 128

instance (place : Place) (cs : List Char) : Decidable (Plain place cs) :=
  List.decidableBAll (fun c : Char => c.toNat < 128) (exposed place cs)

@[simp] theorem plain_nil (place : Place) : Plain place [] := nofun

theorem plain_cons {place : Place} {c : Char} {rest : List Char} :
    Plain place (c :: rest) ↔ (place = .outside → c.toNat < 128) ∧ Plain (place.next c) rest := by
  by_cases hPlace : place = .outside
  · subst hPlace
    simp [Plain, exposed_outside_cons]
  · simp [Plain, exposed_cons_of_ne hPlace, hPlace]

/-! ## Pairs -/

section

variable {α : Type} {x a : α} {Free : List α → Prop} {cs before after : List α}

/-- Two elements in a row that are `x`, behind a list that leaves the place free for them. -/
structure PairAt (x : α) (Free : List α → Prop) (cs before after : List α) : Prop where
  eq : cs = before ++ x :: x :: after
  free : Free before

/-- They are the first ones. -/
structure FirstPair (x : α) (Free : List α → Prop) (cs before after : List α) : Prop
    extends PairAt x Free cs before after where
  first : ∀ before' after', PairAt x Free cs before' after' → before.length ≤ before'.length

/-- The pair is the first two elements. -/
def StartsWithPair (x : α) (Free : List α → Prop) (a : α) (cs : List α) : Prop :=
  Free [] ∧ a = x ∧ cs.head? = some x

theorem pairAt_cons (h : ¬ StartsWithPair x Free a cs) :
    PairAt x Free (a :: cs) before after ↔
      ∃ more, before = a :: more ∧ PairAt x (fun more => Free (a :: more)) cs more after := by
  constructor
  · rintro ⟨hEq, hFree⟩
    cases before with
    | nil =>
      obtain ⟨rfl, rfl⟩ := List.cons.inj hEq
      exact absurd ⟨hFree, rfl, rfl⟩ h
    | cons d more =>
      obtain ⟨rfl, hMore⟩ := List.cons.inj hEq
      exact ⟨more, rfl, hMore, hFree⟩
  · rintro ⟨more, rfl, rfl, hFree⟩
    exact ⟨rfl, hFree⟩

theorem firstPair_cons (h : ¬ StartsWithPair x Free a cs) :
    FirstPair x Free (a :: cs) (a :: before) after ↔
      FirstPair x (fun more => Free (a :: more)) cs before after := by
  constructor
  · rintro ⟨hAt, hFirst⟩
    obtain ⟨more, hBefore, hMore⟩ := (pairAt_cons h).mp hAt
    obtain rfl := (List.cons.inj hBefore).2
    refine ⟨hMore, fun before' after' hAt' => ?_⟩
    have hLe := hFirst _ _ ((pairAt_cons h).mpr ⟨before', rfl, hAt'⟩)
    simpa using hLe
  · rintro ⟨hAt, hFirst⟩
    refine ⟨(pairAt_cons h).mpr ⟨before, rfl, hAt⟩, fun before' after' hAt' => ?_⟩
    obtain ⟨more, rfl, hMore⟩ := (pairAt_cons h).mp hAt'
    have hLe := hFirst _ _ hMore
    simpa using hLe

theorem FirstPair.start (h : Free []) (after : List α) :
    FirstPair x Free (x :: x :: after) [] after :=
  ⟨⟨rfl, h⟩, fun _ _ _ => Nat.zero_le _⟩

theorem FirstPair.unique {before' after' : List α} (h : FirstPair x Free cs before after)
    (h' : FirstPair x Free cs before' after') : before = before' ∧ after = after' := by
  have hLength := Nat.le_antisymm (h.first _ _ h'.toPairAt) (h'.first _ _ h.toPairAt)
  obtain ⟨hBefore, hMore⟩ := List.append_inj (h.eq.symm.trans h'.eq) hLength
  exact ⟨hBefore, by simpa using hMore⟩

theorem PairAt.exists_firstPair (h : PairAt x Free cs before after) :
    ∃ before after, FirstPair x Free cs before after := by
  induction cs generalizing Free before with
  | nil => simpa using h.eq
  | cons a cs ih =>
    by_cases hStart : StartsWithPair x Free a cs
    · obtain ⟨hFree, rfl, hSecond⟩ := hStart
      obtain ⟨more, rfl⟩ := List.head?_eq_some_iff.mp hSecond
      exact ⟨[], more, .start hFree more⟩
    · obtain ⟨more, -, hMore⟩ := (pairAt_cons hStart).mp h
      obtain ⟨before, after, hFirst⟩ := ih hMore
      exact ⟨a :: before, after, (firstPair_cons hStart).mpr hFirst⟩

end

/-! ## Closing braces -/

/-- A text that starts at a place leaves its last quotation. -/
def Place.Left (place : Place) (body : List Char) : Prop := place.after body = .outside

/-- The first closing braces outside of quotations. -/
def Closes (place : Place) (cs body rest : List Char) : Prop :=
  FirstPair '\x7d' place.Left cs body rest

/-- There are no closing braces outside of quotations. -/
def Unclosed (place : Place) (cs : List Char) : Prop :=
  ∀ body rest, ¬ PairAt '\x7d' place.Left cs body rest

/-- A character beyond ASCII stands outside of quotations, in front of the first closing braces if
there are any. -/
def Obstructed (place : Place) (cs : List Char) : Prop :=
  (∃ body rest, Closes place cs body rest ∧ ¬ Plain place body) ∨
    Unclosed place cs ∧ ¬ Plain place cs

/-! ## The search -/

/-- What the search for the end of a region comes to. -/
def Finds (place : Place) (cs : List Char) : RegionEnd → Prop
  | .closed body rest => Closes place cs body rest ∧ Plain place body
  | .unclosed => Unclosed place cs ∧ Plain place cs
  | .crash => Obstructed place cs

section

variable {place : Place} {c : Char} {cs : List Char}

theorem closes_cons (h : ¬ StartsWithPair '\x7d' place.Left c cs) {body rest : List Char} :
    Closes place (c :: cs) (c :: body) rest ↔ Closes (place.next c) cs body rest :=
  firstPair_cons h

theorem Unclosed.cons (h : ¬ StartsWithPair '\x7d' place.Left c cs)
    (hNone : Unclosed (place.next c) cs) : Unclosed place (c :: cs) := by
  intro body rest hAt
  obtain ⟨more, -, hMore⟩ := (pairAt_cons h).mp hAt
  exact hNone more rest hMore

theorem unclosed_nil (place : Place) : Unclosed place [] :=
  fun body rest hAt => by simpa using hAt.eq

theorem Finds.push {found : RegionEnd} (h : Finds (place.next c) cs found)
    (hStart : ¬ StartsWithPair '\x7d' place.Left c cs)
    (hPlain : place = .outside → c.toNat < 128) : Finds place (c :: cs) (found.push c) := by
  cases found with
  | closed body rest =>
    obtain ⟨hCloses, hBody⟩ := h
    exact ⟨(closes_cons hStart).mpr hCloses, plain_cons.mpr ⟨hPlain, hBody⟩⟩
  | unclosed =>
    obtain ⟨hNone, hCs⟩ := h
    exact ⟨hNone.cons hStart, plain_cons.mpr ⟨hPlain, hCs⟩⟩
  | crash =>
    rcases h with ⟨body, rest, hCloses, hBody⟩ | ⟨hNone, hCs⟩
    · refine .inl ⟨c :: body, rest, (closes_cons hStart).mpr hCloses, ?_⟩
      exact fun hAll => hBody (plain_cons.mp hAll).2
    · exact .inr ⟨hNone.cons hStart, fun hAll => hCs (plain_cons.mp hAll).2⟩

theorem Finds.push_of_ne {found : RegionEnd} (hPlace : place ≠ .outside)
    (h : Finds (place.next c) cs found) : Finds place (c :: cs) (found.push c) :=
  h.push (fun hStart => hPlace hStart.1) fun hOutside => absurd hOutside hPlace

/-- A character beyond ASCII is in the way of all closing braces behind it. -/
theorem obstructed_of_large (hLarge : 128 ≤ c.toNat) : Obstructed .outside (c :: cs) := by
  have hNotPlain (more : List Char) : ¬ Plain .outside (c :: more) := fun hAll =>
    absurd ((plain_cons.mp hAll).1 rfl) (by omega)
  have hStart : ¬ StartsWithPair '\x7d' Place.outside.Left c cs := by
    rintro ⟨-, rfl, -⟩
    revert hLarge
    decide
  by_cases hNone : Unclosed .outside (c :: cs)
  · exact .inr ⟨hNone, hNotPlain cs⟩
  · simp only [Unclosed, Classical.not_forall, Classical.not_not] at hNone
    obtain ⟨body, rest, hAt⟩ := hNone
    obtain ⟨more, -, hMore⟩ := (pairAt_cons hStart).mp hAt
    obtain ⟨body, rest, hFirst⟩ := hMore.exists_firstPair
    exact .inl ⟨c :: body, rest, (firstPair_cons hStart).mpr hFirst, hNotPlain body⟩

/-- The induction is on the search; the place that it keeps in its open mark is that behind the text
already read. -/
theorem findClose_finds (mark : Option Char) (cs : List Char) :
    Finds (.ofMark? mark) cs (findClose mark cs) := by
  -- cases 2 to 5 are inside a quotation, cases 6 to 9 outside
  fun_induction findClose mark cs with
  | case1 mark =>
    exact ⟨unclosed_nil _, plain_nil _⟩
  | case2 q =>
    have hNone : Finds ((Place.quoted q).next '\\') [] .unclosed :=
      ⟨unclosed_nil _, plain_nil _⟩
    exact hNone.push_of_ne (Place.quoted_ne_outside q)
  | case3 q d more ih =>
    show Finds (.quoted q) _ _
    refine Finds.push_of_ne (Place.quoted_ne_outside q) ?_
    rw [Place.next_quoted_backslash]
    exact Finds.push_of_ne (Place.escaped_ne_outside q) ih
  | case4 more q hNot ih =>
    show Finds (.quoted q) _ _
    refine Finds.push_of_ne (Place.quoted_ne_outside q) ?_
    rw [Place.next_quoted_mark hNot]
    exact ih
  | case5 d more q hNot hOther ih =>
    show Finds (.quoted q) _ _
    refine Finds.push_of_ne (Place.quoted_ne_outside q) ?_
    rw [Place.next_quoted hNot hOther]
    exact ih
  | case6 d more hMark ih =>
    show Finds .outside _ _
    refine Finds.push ?_ ?_ fun _ => ?_
    · rw [Place.next_outside_of_mark hMark]
      exact ih
    · rintro ⟨-, rfl, -⟩
      revert hMark
      decide
    · rcases hMark with rfl | rfl <;> decide
  | case7 c rest hNot hLarge => exact obstructed_of_large hLarge
  | case8 more =>
    have hLeft : Place.outside.Left [] := rfl
    exact ⟨.start hLeft more, plain_nil _⟩
  | case9 c rest hOther hNot hSmall ih =>
    show Finds .outside _ _
    refine Finds.push ?_ ?_ fun _ => by omega
    · rw [Place.next_outside hNot]
      exact ih
    · rintro ⟨-, hFirst, hSecond⟩
      obtain ⟨more, hMore⟩ := List.head?_eq_some_iff.mp hSecond
      exact hOther more hFirst hMore

/-- A character in the way is met first. -/
theorem Obstructed.eq_crash {found : RegionEnd} (h : Obstructed place cs)
    (hFinds : Finds place cs found) : found = .crash := by
  cases found with
  | crash => rfl
  | closed body rest =>
    obtain ⟨hCloses, hPlain⟩ := hFinds
    rcases h with ⟨body', rest', hCloses', hNot⟩ | ⟨hNone, -⟩
    · obtain ⟨rfl, -⟩ := FirstPair.unique hCloses' hCloses
      exact absurd hPlain hNot
    · exact absurd hCloses.toPairAt (hNone body rest)
  | unclosed =>
    obtain ⟨hNone, hPlain⟩ := hFinds
    rcases h with ⟨body', rest', hCloses', -⟩ | ⟨-, hNot⟩
    · exact absurd hCloses'.toPairAt (hNone body' rest')
    · exact absurd hPlain hNot

theorem findClose_eq_crash_iff : findClose none cs = .crash ↔ Obstructed .outside cs := by
  have hFinds := findClose_finds none cs
  constructor
  · intro h
    rwa [h] at hFinds
  · exact fun hObstructed => hObstructed.eq_crash hFinds

theorem findClose_eq_closed_iff {body rest : List Char} :
    findClose none cs = .closed body rest ↔
      Closes .outside cs body rest ∧ Plain .outside body := by
  have hFinds := findClose_finds none cs
  constructor
  · intro h
    rwa [h] at hFinds
  · intro hFound
    cases hSearch : findClose none cs <;> rw [hSearch] at hFinds
    case closed =>
      obtain ⟨rfl, rfl⟩ := FirstPair.unique hFinds.1 hFound.1
      rfl
    case unclosed => exact absurd hFound.1.toPairAt (hFinds.1 body rest)
    case crash =>
      have hSame : RegionEnd.closed body rest = .crash := Obstructed.eq_crash hFinds hFound
      cases hSame

end

end Workflow.Expr
