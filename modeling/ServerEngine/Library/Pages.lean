import Mathlib.Data.List.Basic

/-! # Append-only pages

Pages that only grow at their end: the last page is extended and pages are added behind it. A read
inside the pages stays what it is while they grow, and cutting grown pages back to an earlier mark
gives the earlier pages again.
-/
namespace Pages

variable {T : Type}

structure Page (T : Type) where
  capacity : Nat := 0
  items : List T := []
  deriving DecidableEq

namespace Page

def extend (page : Page T) (values : List T) : Page T :=
  { page with items := page.items ++ values }

def cut (page : Page T) (size : Nat) : Page T := { page with items := page.items.take size }

theorem extend_extend (page : Page T) (values more : List T) :
    (page.extend values).extend more = page.extend (values ++ more) := by
  simp [extend]

theorem cut_extend (page : Page T) (values : List T) :
    (page.extend values).cut page.items.length = page := by
  simp [extend, cut]

end Page

/-! ## Growth -/

/-- Every page but the last is kept, the last may be longer, pages may follow. -/
def Grows (old new : List (Page T)) : Prop :=
  old = [] ∨ ∃ front page more extra,
    old = front ++ [page] ∧ new = front ++ page.extend more :: extra

/-- The values stand on the page of this number, from this position on. -/
def Reads (pages : List (Page T)) (number begin : Nat) (values : List T) : Prop :=
  ∃ page before after, pages[number]? = some page ∧ page.items = before ++ values ++ after ∧
    before.length = begin

def extendLast (pages : List (Page T)) (values : List T) : List (Page T) :=
  match pages.getLast? with
  | none => []
  | some page => pages.dropLast ++ [page.extend values]

def truncate (pages : List (Page T)) (count lastSize : Nat) : List (Page T) :=
  match (pages.take count).getLast? with
  | none => []
  | some page => (pages.take count).dropLast ++ [page.cut lastSize]

variable {old new pages : List (Page T)} {number begin : Nat} {values : List T}

theorem grows_refl (pages : List (Page T)) : Grows pages pages := by
  rcases List.eq_nil_or_concat pages with hnil | ⟨front, page, heq⟩
  · exact .inl hnil
  · refine .inr ⟨front, page, [], [], by simpa using heq, ?_⟩
    simpa [Page.extend] using heq

theorem Grows.trans {last : List (Page T)} (h : Grows old new) (hnext : Grows new last) :
    Grows old last := by
  rcases h with hnil | ⟨front, page, more, extra, hold, hnew⟩
  · exact .inl hnil
  rcases hnext with hnil | ⟨front', page', more', extra', hnew', hlast⟩
  · rw [hnil] at hnew
    simp at hnew
  rcases List.eq_nil_or_concat extra with hextra | ⟨init, page'', hextra⟩
  · subst hextra
    have hpair : front ++ [page.extend more] = front' ++ [page'] := hnew.symm.trans hnew'
    obtain ⟨hfront, hpage⟩ := List.append_inj' hpair rfl
    obtain rfl : page.extend more = page' := by simpa using hpage
    subst hfront
    refine .inr ⟨front, page, more ++ more', extra', hold, ?_⟩
    rw [hlast, Page.extend_extend]
  · have hpair : (front ++ page.extend more :: init) ++ [page''] = front' ++ [page'] := by
      rw [← hnew', hnew, hextra]
      simp
    obtain ⟨hfront, -⟩ := List.append_inj' hpair rfl
    refine .inr ⟨front, page, more, init ++ page'.extend more' :: extra', hold, ?_⟩
    rw [hlast, ← hfront]
    simp

theorem grows_append (pages extra : List (Page T)) : Grows pages (pages ++ extra) := by
  rcases List.eq_nil_or_concat pages with hnil | ⟨front, page, heq⟩
  · exact .inl hnil
  · refine .inr ⟨front, page, [], extra, by simpa using heq, ?_⟩
    rw [heq]
    simp [Page.extend]

theorem extendLast_concat (front : List (Page T)) (page : Page T) (values : List T) :
    extendLast (front ++ [page]) values = front ++ [page.extend values] := by
  unfold extendLast
  rw [List.getLast?_concat, List.dropLast_concat]

theorem grows_extendLast (pages : List (Page T)) (values : List T) :
    Grows pages (extendLast pages values) := by
  rcases List.eq_nil_or_concat pages with hnil | ⟨front, page, heq⟩
  · exact .inl hnil
  · have hpages : pages = front ++ [page] := by simpa using heq
    refine .inr ⟨front, page, values, [], hpages, ?_⟩
    rw [hpages, extendLast_concat]

theorem Grows.truncate_eq (h : Grows old new) (hsome : old ≠ []) :
    truncate new old.length ((old.getLast hsome).items.length) = old := by
  obtain ⟨front, page, more, extra, hold, hnew⟩ := h.resolve_left hsome
  subst hold
  have htake : new.take (front ++ [page]).length = front ++ [page.extend more] := by
    rw [hnew, List.length_append, List.length_singleton, List.append_cons]
    apply List.take_left'
    simp
  unfold truncate
  rw [htake, List.getLast?_concat, List.dropLast_concat, List.getLast_concat]
  dsimp only
  rw [Page.cut_extend]

theorem Reads.grow (h : Reads old number begin values) (hgrow : Grows old new) :
    Reads new number begin values := by
  obtain ⟨page, before, after, hpage, hitems, hbegin⟩ := h
  rcases hgrow with hnil | ⟨front, last, more, extra, hold, hnew⟩
  · rw [hnil] at hpage
    simp at hpage
  rw [hold] at hpage
  by_cases hlt : number < front.length
  · refine ⟨page, before, after, ?_, hitems, hbegin⟩
    rw [List.getElem?_append_left hlt] at hpage
    rw [hnew, List.getElem?_append_left hlt, hpage]
  · have hbound := (List.getElem?_eq_some_iff.mp hpage).1
    have hnumber : number = front.length := by
      rw [List.length_append, List.length_singleton] at hbound
      omega
    rw [hnumber, List.getElem?_concat_length, Option.some.injEq] at hpage
    refine ⟨last.extend more, before, after ++ more, ?_, ?_, hbegin⟩
    · rw [hnew, hnumber]
      simp
    · unfold Page.extend
      rw [hpage, hitems]
      simp

theorem reads_extendLast {page : Page T} (hlast : pages.getLast? = some page) :
    Reads (extendLast pages values) (pages.length - 1) page.items.length values := by
  obtain ⟨front, hpages⟩ : ∃ front, pages = front ++ [page] := by
    rcases List.eq_nil_or_concat pages with hnil | ⟨front, last, heq⟩
    · rw [hnil] at hlast
      cases hlast
    · have hpages : pages = front ++ [last] := by simpa using heq
      rw [hpages, List.getLast?_concat] at hlast
      exact ⟨front, by rw [hpages, Option.some.inj hlast]⟩
  refine ⟨page.extend values, page.items, [], ?_, by simp [Page.extend], rfl⟩
  rw [hpages, extendLast_concat]
  simp

theorem Reads.length_le (h : Reads pages number begin values) :
    ∃ page, pages[number]? = some page ∧ begin + values.length ≤ page.items.length ∧
      (page.items.drop begin).take values.length = values := by
  obtain ⟨page, before, after, hpage, hitems, hbegin⟩ := h
  refine ⟨page, hpage, ?_, ?_⟩
  · rw [hitems, List.length_append, List.length_append, hbegin]
    omega
  · rw [hitems, List.append_assoc, ← hbegin, List.drop_left, List.take_left]

end Pages
