import Untangle.Proofs.DispatcherExecution
import Untangle.Proofs.DispatcherSteps
import Untangle.Proofs.KeystreamRoundTrip
import Untangle.Proofs.ShortestDigits

/-!
# Cases selected by a plan and by the switch

A plan matches the keys of an order with the keys of the cases, and both are texts. The switch
compares the elements of the order, which is an array of values, with the tests, by strict equality,
and takes the first case whose test is equal.

Only an order that a text is split into between all its characters has another array than its keys,
from the first character on that takes two units; there the switch selects nothing.
-/

namespace Untangle

/-! ### Splitting units -/

variable {u : UInt16} {key : String} {v : Value}

namespace Units

/-- The pieces of a unit sequence between the occurrences of a separator: the units in `skip` are
still part of the last occurrence, `piece` is the piece so far, backwards. -/
def cutAt (sep : Units) : Nat → Units → Units → List Units
  | _, piece, [] => [piece.reverse]
  | skip + 1, piece, _ :: rest => cutAt sep skip piece rest
  | 0, piece, u :: rest =>
    if sep.isPrefixOf (u :: rest) then piece.reverse :: cutAt sep (sep.length - 1) [] rest
    else cutAt sep 0 (u :: piece) rest

/-- A unit sequence split at a separator; an empty one splits between all units. -/
def split (us sep : Units) : List Units :=
  if sep.isEmpty then us.map fun u => [u] else cutAt sep 0 [] us

theorem ofString_inj {s t : String} (h : ofString s = ofString t) : s = t := by
  have hread := congrArg toString? h
  rw [toString?_ofString, toString?_ofString] at hread
  exact Option.some_inj.1 hread

theorem pieces_append (cs : List Char) (us : Units) :
    pieces (cs.flatMap ofChar ++ us) = cs.map .scalar ++ pieces us := by
  induction cs with
  | nil => rfl
  | cons c cs ih =>
    rw [List.flatMap_cons, List.append_assoc, pieces_ofChar, ih, List.map_cons, List.cons_append]

/-- The units of a text begin with those of another only if the text does. -/
theorem isPrefixOf_ofChars (sep text : List Char) :
    (sep.flatMap ofChar).isPrefixOf (text.flatMap ofChar) = sep.isPrefixOf text := by
  rw [Bool.eq_iff_iff, List.isPrefixOf_iff_prefix, List.isPrefixOf_iff_prefix]
  constructor
  · rintro ⟨us, hus⟩
    have hread := congrArg pieces hus
    rw [pieces_append, pieces_ofChars] at hread
    have hpre : sep.map Piece.scalar <+: text.map Piece.scalar := ⟨pieces us, hread⟩
    exact (List.prefix_map_iff_of_injective fun _ _ => Piece.scalar.inj).1 hpre
  · rintro ⟨rest, rfl⟩
    rw [List.flatMap_append]
    exact List.prefix_append _ _

theorem ofChar_cases (c : Char) : (∃ u, ofChar c = [u] ∧ c.toNat < 0x10000) ∨
    ∃ u v, ofChar c = [u, v] ∧ isHigh u = true ∧ isLow v = true ∧ 0x10000 ≤ c.toNat := by
  have hvalid : c.toNat < 0xD800 ∨ (0xDFFF < c.toNat ∧ c.toNat < 0x110000) := c.valid
  unfold ofChar
  by_cases hn : c.toNat < 0x10000
  · exact .inl ⟨_, if_pos hn, hn⟩
  · refine .inr ⟨_, _, if_neg hn, ?_, ?_, by omega⟩
    · rw [isHigh_iff, toNat_toUInt16 (by omega)]
      omega
    · rw [isLow_iff, toNat_toUInt16 (by omega)]
      omega

variable {sep : List Char}

/-- No text begins with the second half of a pair. -/
theorem isPrefixOf_low (hsep : sep ≠ []) {v : UInt16} (hv : isLow v = true) (us : Units) :
    (sep.flatMap ofChar).isPrefixOf (v :: us) = false := by
  obtain ⟨c, cs, rfl⟩ := List.exists_cons_of_ne_nil hsep
  rw [Bool.eq_false_iff, Ne, List.isPrefixOf_iff_prefix, List.flatMap_cons]
  rintro ⟨rest, hrest⟩
  have hread := congrArg pieces hrest
  rw [List.append_assoc, pieces_ofChar] at hread
  have hhigh : isHigh v = false := by
    rw [Bool.eq_false_iff, Ne, isHigh_iff]
    rw [isLow_iff] at hv
    omega
  rw [pieces.eq_def (v :: us)] at hread
  simp [hhigh, hv] at hread

theorem cutAt_skip (sep : Units) (n : Nat) (piece us : Units) :
    cutAt sep n piece us = cutAt sep 0 piece (us.drop n) := by
  induction n generalizing us with
  | zero => rfl
  | succ n ih =>
    cases us with
    | nil => simp [cutAt]
    | cons u rest => simpa [cutAt] using ih rest

theorem cutAt_append {sep : Units} (hsep : sep ≠ []) (piece rest : Units) :
    cutAt sep 0 piece (sep ++ rest) = piece.reverse :: cutAt sep 0 [] rest := by
  obtain ⟨u, us, rfl⟩ := List.exists_cons_of_ne_nil hsep
  rw [List.cons_append, cutAt, if_pos (by simp), cutAt_skip]
  simp

theorem cutAt_cons {sep : Units} {rest : Units} (h : sep.isPrefixOf (u :: rest) = false)
    (piece : Units) : cutAt sep 0 piece (u :: rest) = cutAt sep 0 (u :: piece) rest := by
  rw [cutAt, if_neg (by simp [h])]

theorem cutAt_ofChars (hsep : sep ≠ []) (piece text : List Char) :
    cutAt (sep.flatMap ofChar) 0 (piece.reverse.flatMap ofChar).reverse (text.flatMap ofChar) =
      (Pass.splitAt sep 0 piece text).map (List.flatMap ofChar) := by
  have hunits : sep.flatMap ofChar ≠ [] := by
    obtain ⟨c, cs, rfl⟩ := List.exists_cons_of_ne_nil hsep
    rcases ofChar_cases c with ⟨u, hu, -⟩ | ⟨u, v, huv, -⟩
    · simp [hu]
    · simp [huv]
  -- on the length, as a piece ends by skipping the whole separator
  induction hn : text.length using Nat.strong_induction_on generalizing piece text with
  | _ n ih =>
    cases text with
    | nil => simp [cutAt, Pass.splitAt]
    | cons c rest =>
      cases hp : sep.isPrefixOf (c :: rest) with
      | true =>
        obtain ⟨after, hafter⟩ := List.isPrefixOf_iff_prefix.1 hp
        have hpos := List.length_pos_of_ne_nil hsep
        have hfirst : ¬sep <:+: [] ++ sep.dropLast := by
          intro hi
          have hlen := hi.length_le
          simp at hlen
          omega
        have hcut := splitAt_cut hsep hfirst piece after
        have hshort : after.length < n := by
          have hlen := congrArg List.length hafter
          simp at hlen hn
          omega
        rw [List.nil_append, hafter, List.append_nil] at hcut
        have hrest := ih _ hshort [] after rfl
        rw [hcut, ← hafter, List.flatMap_append, cutAt_append hunits, List.map_cons, ← hrest]
        simp
      | false =>
        have hstep : Pass.splitAt sep 0 piece (c :: rest) = Pass.splitAt sep 0 (c :: piece) rest := by
          rw [Pass.splitAt, if_neg (by simp [hp])]
        have hunitstep := isPrefixOf_ofChars sep (c :: rest)
        have hrest := ih _ (by simp at hn; omega) (c :: piece) rest rfl
        rw [hp, List.flatMap_cons] at hunitstep
        rw [hstep, ← hrest, List.flatMap_cons]
        rcases ofChar_cases c with ⟨u, hu, -⟩ | ⟨u, v, huv, -, hv, -⟩
        · rw [hu, List.singleton_append] at hunitstep ⊢
          rw [cutAt_cons hunitstep]
          simp [hu]
        · rw [huv, List.cons_append, List.singleton_append] at hunitstep ⊢
          rw [cutAt_cons hunitstep, cutAt_cons (isPrefixOf_low hsep hv _)]
          simp [huv]

end Units

/-! ### Values of literals -/

def Expr.literal? (e : Expr) : Option Value :=
  match e.unparen with
  | .lit (.str s) => some (.string s.units)
  | .lit (.num n) => some (.number n.value)
  | _ => none

def Case.value? : Case → Option Value
  | .mk test _ => test.bind Expr.literal?

/-- A string or number that a key is the text of. -/
inductive Value.Reads : Value → String → Prop
  | string (key : String) : Reads (.string (Units.ofString key)) key
  | number {x : Float} {key : String} : Number.conversionText? x = some key → Reads (.number x) key

theorem Value.Reads.toText? (h : v.Reads key) : v.toText? = some (Units.ofString key) := by
  cases h with
  | string => rfl
  | number hx => simp [Value.toText?, hx]

theorem Value.Reads.strictEquals_iff {w : Value} {key' : String} (hv : v.Reads key)
    (hw : w.Reads key') : v.strictEquals w = true ↔ key = key' ∧ v.typeName = w.typeName := by
  cases hv with
  | string =>
    cases hw with
    | string =>
      simp only [Value.strictEquals, Value.typeName, and_true, beq_iff_eq]
      exact ⟨Units.ofString_inj, congrArg Units.ofString⟩
    | number => simp [Value.strictEquals, Value.typeName]
  | number hx =>
    cases hw with
    | string => simp [Value.strictEquals, Value.typeName]
    | number hy =>
      simp only [Value.strictEquals, Value.typeName, and_true]
      exact (Number.conversionText?_eq_iff hx hy).symm

namespace Pass

variable {e : Expr} {keys : List String} {cs : List Char} {i : Nat}

theorem caseKey?_reads (h : caseKey? e = some key) : ∃ v, e.literal? = some v ∧ v.Reads key := by
  unfold caseKey? at h
  split at h
  · rename_i s hs
    refine ⟨.string s.units, by simp only [Expr.literal?, hs], ?_⟩
    rw [← Units.ofString_of_toString? h]
    exact .string key
  · rename_i n hn
    exact ⟨.number n.value, by simp only [Expr.literal?, hn], .number h⟩
  · cases h

theorem key?_reads {c : Case} (h : c.key? = some key) : ∃ t, c.value? = some t ∧ t.Reads key := by
  obtain ⟨test, body⟩ := c
  obtain ⟨e, rfl, he⟩ := Option.bind_eq_some_iff.1 h
  exact caseKey?_reads he

/-! ### Selection -/

/-- The case that a switch selects for a value: the first whose test is strictly equal to it. -/
def selected? (v : Value) (cases : List Case) : Option Case :=
  cases.find? fun c => c.value?.any v.strictEquals

variable {cases : List Case} {table : Table String (List Stmt × Bool)}

theorem selected?_eq_none (h : caseTable? cases = some table) (hv : v.Reads key)
    (hfind : table.find? key = none) : selected? v cases = none := by
  unfold selected?
  rw [List.find?_eq_none]
  intro c hc hequal
  obtain ⟨key', isLast, hkey', hfind'⟩ := caseTable?_mem h hc
  obtain ⟨t, ht, hreads⟩ := key?_reads hkey'
  rw [ht, Option.any_some, hv.strictEquals_iff hreads] at hequal
  rw [← hequal.1, hfind] at hfind'
  cases hfind'

/-- A value whose key is in the table selects the case there if it is of the kind of the test, and no
case otherwise. -/
theorem selected?_eq (h : caseTable? cases = some table) {body : List Stmt} {isLast : Bool}
    (hv : v.Reads key) (hfind : table.find? key = some (body, isLast)) :
    ∃ c t, c ∈ cases ∧ c.value? = some t ∧ t.Reads key ∧ c.body = body ∧
      selected? v cases = if v.typeName = t.typeName then some c else none := by
  induction cases generalizing table with
  | nil =>
    cases h
    cases hfind
  | cons c cases ih =>
    obtain ⟨k, rest, hk, hrest, hnew, rfl⟩ := caseTable?_cons h
    obtain ⟨t, ht, hreads⟩ := key?_reads hk
    have hequal := hv.strictEquals_iff hreads
    rw [Table.find?, List.lookup_cons] at hfind
    split at hfind
    · rename_i heq
      obtain rfl := beq_iff_eq.1 heq
      cases hfind
      refine ⟨c, t, List.mem_cons_self, ht, hreads, rfl, ?_⟩
      by_cases htype : v.typeName = t.typeName
      · rw [if_pos htype, selected?, List.find?_cons_of_pos (by simp [ht, hequal, htype])]
      · -- no later case has the key once more
        have hlater : selected? v cases = none := by
          apply selected?_eq_none hrest hv
          simpa [Table.has] using hnew
        rw [if_neg htype, selected?, List.find?_cons_of_neg (by simp [ht, hequal, htype])]
        exact hlater
    · rename_i hne
      obtain ⟨c', t', hc', ht', hreads', hbody, hselected⟩ := ih hrest hfind
      refine ⟨c', t', List.mem_cons_of_mem c hc', ht', hreads', hbody, ?_⟩
      rw [selected?, List.find?_cons_of_neg (by simp_all)]
      exact hselected

/-! ### Orders -/

/-- The array that an order is: its literals, or the pieces of a string. -/
def orderArray? (e : Expr) : Option (List Value) :=
  match e.unparen with
  | .call callee args =>
    match callee.unparen, args with
    | .member obj prop, [sep] =>
      match prop.key?, obj.literal?, sep.literal? with
      | some key, some (.string us), some (.string sep) =>
        if key = "split" then some ((us.split sep).map .string) else none
      | _, _, _ => none
    | _, _ => none
  | .array elems => elems.mapM Expr.literal?
  | _ => none

/-- The characters of the text that an order splits between all of them. -/
def characters? (e : Expr) : Option (List Char) :=
  match e.unparen with
  | .call callee [sep] =>
    match callee.unparen with
    | .member obj _ => if sep.text? = some "" then obj.text?.map String.toList else none
    | _ => none
  | _ => none

/-- The first characters that an order splits a text into are code units. -/
def SingleTo (e : Expr) (n : Nat) : Prop :=
  ∀ cs, characters? e = some cs → ∀ c ∈ cs.take n, c.toNat < 0x10000

theorem literal?_of_text? {text : String} (h : e.text? = some text) :
    e.literal? = some (.string (Units.ofString text)) := by
  unfold Expr.text? at h
  unfold Expr.literal?
  split at h
  · rename_i s hs
    rw [hs, Units.ofString_of_toString? h]
  · cases h

theorem mapM_caseKey?_reads {es : List Expr} (h : es.mapM caseKey? = some keys) :
    ∃ vs, es.mapM Expr.literal? = some vs ∧ List.Forall₂ Value.Reads vs keys := by
  induction es generalizing keys with
  | nil =>
    cases h
    exact ⟨[], rfl, .nil⟩
  | cons e es ih =>
    simp only [List.mapM_cons, Option.bind_eq_bind, Option.bind_eq_some_iff] at h
    obtain ⟨key, hkey, rest, hrest, h⟩ := h
    cases h
    obtain ⟨v, hv, hreads⟩ := caseKey?_reads hkey
    obtain ⟨vs, hvs, hall⟩ := ih hrest
    exact ⟨v :: vs, by simp [hv, hvs], .cons hreads hall⟩

theorem reads_strings (keys : List String) :
    List.Forall₂ Value.Reads ((keys.map Units.ofString).map .string) keys := by
  induction keys with
  | nil => exact .nil
  | cons key keys ih => exact .cons (.string key) ih

theorem getElem?_rel {α β : Type} {R : α → β → Prop} {as : List α} {bs : List β}
    (h : List.Forall₂ R as bs) (i : Nat) : Option.Rel R as[i]? bs[i]? := by
  induction h generalizing i with
  | nil => exact .none
  | cons hab _ ih =>
    cases i with
    | zero => exact .some hab
    | succ i => exact ih i

/-- A text split between its characters, as long as these are code units. -/
theorem units_rel (h : ∀ c ∈ cs.take (i + 1), c.toNat < 0x10000) :
    Option.Rel Value.Reads (((cs.flatMap Units.ofChar).map fun u => Value.string [u])[i]?)
      (cs.map String.singleton)[i]? := by
  induction cs generalizing i with
  | nil => exact .none
  | cons c cs ih =>
    rcases Units.ofChar_cases c with ⟨u, hu, -⟩ | ⟨u, v, -, -, -, hastral⟩
    · cases i with
      | zero =>
        have hunits : Units.ofString (String.singleton c) = [u] := by
          simp [Units.ofString, hu]
        simp only [List.flatMap_cons, hu, List.map_cons, List.singleton_append,
          List.getElem?_cons_zero]
        rw [← hunits]
        exact .some (.string _)
      | succ i =>
        simp only [List.flatMap_cons, hu, List.map_cons, List.singleton_append,
          List.getElem?_cons_succ]
        exact ih fun c hc => h c (by simp [hc])
    · have := h c (by simp)
      omega

theorem units_half {c : Char} (h : ∀ c ∈ cs.take i, c.toNat < 0x10000) (hc : cs[i]? = some c)
    (hastral : 0x10000 ≤ c.toNat) :
    ∃ u, Units.isHigh u = true ∧ (cs.flatMap Units.ofChar)[i]? = some u := by
  induction cs generalizing i with
  | nil => cases hc
  | cons d cs ih =>
    cases i with
    | zero =>
      cases hc
      rcases Units.ofChar_cases c with ⟨u, -, hsingle⟩ | ⟨u, v, huv, hu, -, -⟩
      · omega
      · exact ⟨u, hu, by simp [huv]⟩
    | succ i =>
      rcases Units.ofChar_cases d with ⟨u, hu, -⟩ | ⟨u, v, -, -, -, hd⟩
      · obtain ⟨half, hhalf, hget⟩ := ih (fun c hc => h c (by simp [hc])) hc
        exact ⟨half, hhalf, by simpa [hu] using hget⟩
      · have := h d (by simp)
        omega

theorem orderKeys?_cases (h : orderKeys? e = some keys) :
    (∃ elems, e.unparen = .array elems ∧ elems.mapM caseKey? = some keys) ∨
      ∃ callee obj prop arg text sep, e.unparen = .call callee [arg] ∧
        callee.unparen = .member obj prop ∧ prop.key? = some "split" ∧ obj.text? = some text ∧
        arg.text? = some sep ∧ keys = splitText text sep := by
  unfold orderKeys? at h
  split at h
  · rename_i callee args he
    split at h
    · rename_i obj prop arg hcallee
      simp only [Option.bind_eq_bind, Option.bind_eq_some_iff] at h
      obtain ⟨key, hkey, h⟩ := h
      split at h
      · cases h
      · rename_i hsplit
        obtain rfl : key = "split" := by simpa using hsplit
        simp only [Option.bind_eq_some_iff] at h
        obtain ⟨text, htext, sep, hsep, h⟩ := h
        cases h
        exact .inr ⟨callee, obj, prop, arg, text, sep, he, hcallee, hkey, htext, hsep, rfl⟩
    · cases h
  · rename_i elems he
    exact .inl ⟨elems, he, h⟩
  · cases h

theorem split_ofString (text : String) {sep : String} (hsep : sep.toList ≠ []) :
    (Units.ofString text).split (Units.ofString sep) = (splitText text sep).map Units.ofString := by
  have hcut := Units.cutAt_ofChars hsep [] text.toList
  have hunits : Units.ofString sep ≠ [] := by
    obtain ⟨c, cs, hcs⟩ := List.exists_cons_of_ne_nil hsep
    rcases Units.ofChar_cases c with ⟨u, hu, -⟩ | ⟨u, v, huv, -⟩
    · simp [Units.ofString, hcs, hu]
    · simp [Units.ofString, hcs, huv]
  have hempty : sep.isEmpty = false := by
    rw [Bool.eq_false_iff, Ne, String.isEmpty_iff]
    rintro rfl
    exact hsep rfl
  unfold Units.split splitText
  rw [if_neg (by simpa using hunits), hempty, if_neg (by simp), List.map_map]
  unfold Units.ofString
  rw [show ([] : Units) = (([] : List Char).reverse.flatMap Units.ofChar).reverse from rfl, hcut]
  apply List.map_congr_left
  intro piece _
  simp

/-- The keys of an order are the texts of its elements, as long as a text is not split within a
character; and a half of a character is an element. -/
theorem orderKeys?_rel (h : orderKeys? e = some keys) :
    ∃ elements, orderArray? e = some elements ∧
      (∀ i, SingleTo e (i + 1) → Option.Rel Value.Reads elements[i]? keys[i]?) ∧
      ∀ i cs c, SingleTo e i → characters? e = some cs → cs[i]? = some c → 0x10000 ≤ c.toNat →
        ∃ u, Units.isHigh u = true ∧ elements[i]? = some (.string [u]) := by
  rcases orderKeys?_cases h with ⟨elems, he, hkeys⟩ |
    ⟨callee, obj, prop, arg, text, sep, he, hcallee, hkey, htext, hsep, rfl⟩
  · obtain ⟨vs, hvs, hall⟩ := mapM_caseKey?_reads hkeys
    refine ⟨vs, by simp [orderArray?, he, hvs], fun i _ => getElem?_rel hall i, ?_⟩
    intro i cs c _ hcs
    simp [characters?, he] at hcs
  · have harray : orderArray? e =
        some (((Units.ofString text).split (Units.ofString sep)).map .string) := by
      simp [orderArray?, he, hcallee, hkey, literal?_of_text? htext, literal?_of_text? hsep]
    refine ⟨_, harray, ?_⟩
    by_cases hempty : sep = ""
    · subst hempty
      have hcs : characters? e = some text.toList := by
        simp [characters?, he, hcallee, hsep, htext]
      have hunits : ((Units.ofString text).split (Units.ofString "")).map Value.string =
          (text.toList.flatMap Units.ofChar).map fun u => Value.string [u] := by
        simp [Units.split, Units.ofString]
      rw [hunits]
      constructor
      · intro i hsingle
        exact units_rel (hsingle _ hcs)
      · intro i cs c hsingle hcs' hc hastral
        cases hcs.symm.trans hcs'
        obtain ⟨u, hu, hget⟩ := units_half (hsingle _ hcs) hc hastral
        exact ⟨u, hu, by simp [hget]⟩
    · have hne : sep.toList ≠ [] := by simpa using hempty
      rw [split_ofString text hne]
      refine ⟨fun i _ => getElem?_rel (reads_strings _) i, ?_⟩
      intro i cs c _ hcs
      simp [characters?, he, hcallee, hsep, hempty] at hcs

/-! ### Plans -/

theorem selected?_half (h : caseTable? cases = some table) (hu : Units.isHigh u = true) :
    selected? (.string [u]) cases = none := by
  unfold selected?
  rw [List.find?_eq_none]
  intro c hc hequal
  obtain ⟨key, _, hkey, _⟩ := caseTable?_mem h hc
  obtain ⟨t, ht, hreads⟩ := key?_reads hkey
  rw [ht, Option.any_some] at hequal
  cases hreads with
  | string =>
    have hunits : [u] = Units.ofString key := by simpa [Value.strictEquals] using hequal
    have hread := Units.toString?_ofString key
    rw [← hunits] at hread
    simp [Units.toString?, Units.pieces, hu, Units.Piece.char?] at hread
  | number => simp [Value.strictEquals] at hequal

/-- How the steps of a plan stand to the cases that the switch selects for the elements of the order,
counted from a start. -/
structure Selects (cases : List Case) (order : Expr) (elements : List Value) (start : Nat)
    (steps : List Step) : Prop where
  /-- A step is a case whose test has the text of the element. The switch selects that case if the
  two are of one kind, and none otherwise. -/
  step : ∀ k s, steps[k]? = some s → SingleTo order (start + k + 1) →
    ∃ v c t text, elements[start + k]? = some v ∧ c ∈ cases ∧ c.body = s.body ∧
      c.value? = some t ∧ t.toText? = some text ∧ v.toText? = some text ∧
      selected? v cases = if v.typeName = t.typeName then some c else none
  /-- Where the last step asks for one more case, the elements end or the switch selects none. -/
  ends : (∀ s, steps.getLast? = some s → s.exit = .next) →
    SingleTo order (start + steps.length + 1) →
    ∀ v, elements[start + steps.length]? = some v → selected? v cases = none
  /-- The switch selects no case for a half of a character. -/
  half : ∀ i cs c, SingleTo order i → characters? order = some cs → cs[i]? = some c →
    0x10000 ≤ c.toNat → ∃ v, elements[i]? = some v ∧ selected? v cases = none

/-- **A plan takes the cases whose tests have the texts of the elements of the order**, which are the
cases that the switch selects where the kinds of the two agree. -/
theorem plan_selects_cases {refs : List Binding} {before : List Stmt} {s : Stmt} {p : Plan}
    (h : plan? refs before s = some p) : ∃ d order counter elements start,
      dispatcher? s = some d ∧ initOf? (planDecls d.init before) p.order = some order ∧
      initOf? (planDecls d.init before) p.counter = some counter ∧
      orderArray? order = some elements ∧ counter.whole? = some start ∧
      Selects d.cases order elements start p.steps := by
  obtain ⟨d, order, counter, keys, start, table, hd, _, _, _, _, _, horder, hkeys, hcounter, hstart,
    htable, hsteps⟩ := plan_eq h
  obtain ⟨elements, helements, hrel, hhalf⟩ := orderKeys?_rel hkeys
  have hwalks := steps?_walks hsteps
  refine ⟨d, order, counter, elements, start, hd, horder, hcounter, helements, hstart, ?_, ?_, ?_⟩
  · intro k st hst hsingle
    obtain ⟨key, isLast, hkey, hfind, _⟩ := hwalks.step hst
    rw [List.getElem?_drop] at hkey
    have hreads := hrel _ hsingle
    rw [hkey] at hreads
    cases hv : elements[start + k]? with
    | none =>
      rw [hv] at hreads
      cases hreads
    | some v =>
      rw [hv] at hreads
      cases hreads with
      | some hreads =>
        obtain ⟨c, t, hc, ht, htext, hbody, hselected⟩ := selected?_eq htable hreads hfind
        exact ⟨v, c, t, _, rfl, hc, hbody, ht, htext.toText?, hreads.toText?, hselected⟩
  · intro hlast hsingle v hv
    have hreads := hrel _ hsingle
    rw [hv] at hreads
    cases hkey : keys[start + p.steps.length]? with
    | none =>
      rw [hkey] at hreads
      cases hreads
    | some key =>
      rw [hkey] at hreads
      cases hreads with
      | some hreads =>
        apply selected?_eq_none htable hreads
        apply hwalks.ends hlast
        rw [List.getElem?_drop, hkey]
  · intro i cs c hsingle hcs hc hastral
    obtain ⟨u, hu, hget⟩ := hhalf i cs c hsingle hcs hc hastral
    exact ⟨_, hget, selected?_half htable hu⟩

/-! A number is spelled like a string, and a character of two units is one key. -/

section Mixed

/-- `let order = …, at = 0;` -/
def declaresOrder (order : Expr) : List Stmt :=
  [.decl (.var (.mk .let
    [.mk (.name (.ofIdent { name := "order" })) (some order) false,
      .mk (.name (.ofIdent { name := "at" })) (some (.lit (.num { value := 0 }))) false]))]

def loopOver (cases : List Case) : Stmt :=
  .while (.lit (.bool true)) (.block [.switch (.member (.ident { name := "order" })
    (.computed (.update .increment false (.ident { name := "at" })))) cases, .break none])

def planned? (order : Expr) (cases : List Case) : Option Plan :=
  plan? (mentionsOf (outlineStmts (declaresOrder order ++ [loopOver cases]))) (declaresOrder order)
    (loopOver cases)

/-- `[1, "0"]`, a number and a string. -/
def mixedOrder : Expr := .array [.lit (.num { value := 1 }), textLit "0"]

theorem plan_selects_mixed : ∃ p, planned? mixedOrder twoCases = some p ∧
    ∃ d order counter elements start, dispatcher? (loopOver twoCases) = some d ∧
      initOf? (planDecls d.init (declaresOrder mixedOrder)) p.order = some order ∧
      initOf? (planDecls d.init (declaresOrder mixedOrder)) p.counter = some counter ∧
      orderArray? order = some elements ∧ counter.whole? = some start ∧
      Selects d.cases order elements start p.steps := by
  have hsome : (planned? mixedOrder twoCases).isSome = true := by decide +kernel
  obtain ⟨p, hp⟩ := Option.isSome_iff_exists.1 hsome
  exact ⟨p, hp, plan_selects_cases hp⟩

/-- `"😀".split("")`, a text of one character. -/
def splitCharacter : Expr := .call (.member (textLit "😀") (.name "split")) [textLit ""]

def characterCases : List Case :=
  [.mk (some (textLit "😀")) [.expr (callOf "first"), .continue none]]

/-- **A plan takes cases that the switch does not select.** It goes through `[1, "0"]` and through a
character of two units; the switch has no case for the number, nor for half of the character. -/
theorem plan_takes_unselected :
    (planned? mixedOrder twoCases).map (fun p => p.steps.length) = some 2 ∧
    orderArray? mixedOrder = some [.number 1, .string (Units.ofString "0")] ∧
    (selected? (.number 1) twoCases).isNone ∧
    (planned? splitCharacter characterCases).map (fun p => p.steps.length) = some 1 ∧
    orderArray? splitCharacter = some [.string [0xD83D], .string [0xDE00]] ∧
    (selected? (.string [0xD83D]) characterCases).isNone := by
  decide +kernel

end Mixed

end Pass

end Untangle
