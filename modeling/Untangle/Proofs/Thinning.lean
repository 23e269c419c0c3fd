import Untangle.Proofs.Scoping

/-!
# Scopes without some of their parts

Removing code drops occurrences of names and declarations. What is left refers to what it did, apart
from the occurrences of a variable whose declaration is gone, and apart from names that are declared
where they were not.

* `Thins` — this relation, kept by scopes (`Thins.scope`).
-/

namespace Untangle

open Scoping (Close)
open ScopeTree (rightOf occurrencesOf)

variable {N : List Waiver}

/-! ### Declarations -/

/-- Declarations that can take the place of others: a variable that is no longer declared, and a
name that is declared anew, are left out of account. -/
structure Redeclares (N : List Waiver) (before after : List Ident) : Prop where
  kept : ∀ d ∈ before, d.name ∈ after.map Ident.name ∨
    ∃ e ∈ before, e.name = d.name ∧ Waives N e.name e.scope
  known : ∀ d ∈ after, d ∈ before ∨ .name d.name ∈ N

namespace Redeclares

variable {a b c d : List Ident}

theorem refl (a : List Ident) : Redeclares N a a :=
  ⟨fun _ hx => .inl (List.mem_map_of_mem hx), fun _ => .inl⟩

theorem trans (h : Redeclares N a b) (h' : Redeclares N b c) : Redeclares N a c where
  kept x hx := by
    rcases h.kept x hx with hb | hwaived
    · obtain ⟨y, hy, hname⟩ := List.mem_map.1 hb
      rcases h'.kept y hy with hc | ⟨e, he, hsame, hwaived⟩
      · exact .inl (hname ▸ hc)
      · have hename : e.name = x.name := hsame.trans hname
        rcases h.known e he with hea | hanew
        · exact .inr ⟨e, hea, hename, hwaived⟩
        · exact .inr ⟨x, hx, rfl, .inl (hename ▸ hanew)⟩
    · exact .inr hwaived
  known x hx := (h'.known x hx).elim (h.known x) .inr

theorem append (h : Redeclares N a b) (h' : Redeclares N c d) : Redeclares N (a ++ c) (b ++ d) where
  kept x hx := by
    rw [List.map_append, List.mem_append]
    rcases List.mem_append.1 hx with hx | hx
    · rcases h.kept x hx with hb | ⟨e, he, hwaived⟩
      · exact .inl (.inl hb)
      · exact .inr ⟨e, List.mem_append_left c he, hwaived⟩
    · rcases h'.kept x hx with hd | ⟨e, he, hwaived⟩
      · exact .inl (.inr hd)
      · exact .inr ⟨e, List.mem_append_right a he, hwaived⟩
  known x hx := by
    rcases List.mem_append.1 hx with hx | hx
    · exact (h.known x hx).imp_left (List.mem_append_left c)
    · exact (h'.known x hx).imp_left (List.mem_append_right a)

theorem composes (N : List Waiver) : Composes (Redeclares N) := ⟨refl, trans, append⟩

theorem of_carries {added : List String} (h : Carries [] added a b)
    (hadded : ∀ x ∈ added, .name x ∈ N) : Redeclares N a b where
  kept x hx := (h.kept x hx).imp_right fun hlost => absurd hlost List.not_mem_nil
  known x hx := (h.known x hx).imp_right (hadded x.name)

theorem lost (h : ∀ d ∈ a, Waives N d.name d.scope) : Redeclares N a [] :=
  ⟨fun d hd => .inr ⟨d, hd, rfl, h d hd⟩, fun _ hd => absurd hd List.not_mem_nil⟩

theorem added (h : ∀ d ∈ a, .name d.name ∈ N) : Redeclares N [] a :=
  ⟨fun _ hd => absurd hd List.not_mem_nil, fun d hd => .inr (h d hd)⟩

variable {env env' : Scoping}

theorem within_eq (h : Redeclares N a b) (ha : (env.within a).Declares N a) {x : String}
    (hx : x ∈ b.map Ident.name) (hN : .name x ∉ N) : env.within a x = env'.within b x := by
  obtain ⟨d, hd, rfl, hscope⟩ := Scoping.exists_within hx
  have hda : d ∈ a := (h.known d hd).resolve_right hN
  rw [hscope]
  exact (ha d hda).resolve_left hN

theorem declares (h : Redeclares N a b) (ha : (env.within a).Declares N a) :
    (env'.within b).Declares N b := by
  intro d hd
  by_cases hN : .name d.name ∈ N
  · exact .inl hN
  · have hda : d ∈ a := (h.known d hd).resolve_right hN
    rw [← h.within_eq ha (List.mem_map_of_mem hd) hN]
    exact ha d hda

theorem close (h : Redeclares N a b) (henv : Close N env env') (ha : (env.within a).Declares N a) :
    Close N (env.within a) (env'.within b) := by
  intro x
  by_cases hN : .name x ∈ N
  · exact .inl (.inl hN)
  by_cases hb : x ∈ b.map Ident.name
  · exact .inr (h.within_eq ha hb hN)
  by_cases hxa : x ∈ a.map Ident.name
  · obtain ⟨d, hd, rfl⟩ := List.mem_map.1 hxa
    obtain ⟨e, he, hname, hwaived⟩ := (h.kept d hd).resolve_left hb
    rw [hname] at hwaived
    have hright : env.within a d.name = e.scope := hname ▸ (ha e he).resolve_left (hname ▸ hN)
    exact .inl (hright ▸ hwaived)
  · rw [Scoping.within_of_not_mem hxa, Scoping.within_of_not_mem hb]
    exact henv x

end Redeclares

/-! ### Parts -/

/-- No occurrence is new, and what was right still is, also where names refer to almost the same. -/
structure Thins (N : List Waiver) (before after : List ScopeTree) : Prop where
  kept : (occurrencesOf after).Sublist (occurrencesOf before)
  right : ∀ env env' : Scoping, Close N env env' → rightOf N env before → rightOf N env' after

namespace Thins

variable {a b c d : List ScopeTree}

theorem refl (a : List ScopeTree) : Thins N a a :=
  ⟨List.Sublist.refl _, fun _ _ henv h => ScopeTree.rightOf_close a henv h⟩

theorem trans (h : Thins N a b) (h' : Thins N b c) : Thins N a c :=
  ⟨h'.kept.trans h.kept, fun env env' henv ha =>
    h'.right env' env' (.refl _) (h.right env env' henv ha)⟩

theorem append (h : Thins N a b) (h' : Thins N c d) : Thins N (a ++ c) (b ++ d) where
  kept := by
    rw [ScopeTree.occurrencesOf_append, ScopeTree.occurrencesOf_append]
    exact h.kept.append h'.kept
  right env env' henv hac := by
    rw [ScopeTree.rightOf_append] at hac ⊢
    exact ⟨h.right env env' henv hac.1, h'.right env env' henv hac.2⟩

theorem drop (a : List ScopeTree) : Thins N a [] := ⟨List.nil_sublist _, fun _ _ _ _ => trivial⟩

theorem left (a b : List ScopeTree) : Thins N (a ++ b) a := by
  have h := (refl (N := N) a).append (drop b)
  rwa [List.append_nil] at h

theorem right_part (a b : List ScopeTree) : Thins N (a ++ b) b := (drop a).append (refl b)

theorem scope {ids ids' added added' : List Ident} {head head' body body' : List ScopeTree}
    (hids : Redeclares N ids ids') (hhead : Thins N head head')
    (hadded : Redeclares N added added') (hbody : Thins N body body') :
    Thins N [.scope ids head added body] [.scope ids' head' added' body'] where
  kept := by
    simp only [occurrencesOf, ScopeTree.occurrences, List.append_nil]
    exact hhead.kept.append hbody.kept
  right env env' henv h := by
    obtain ⟨⟨hd, hh, ha, hb⟩, -⟩ := h
    have hwithin := hids.close henv hd
    have hwithin' := hadded.close hwithin ha
    exact ⟨⟨hids.declares hd, hhead.right _ _ hwithin hh, hadded.declares ha,
      hbody.right _ _ hwithin' hb⟩, trivial⟩

theorem block {ids ids' : List Ident} (hids : Redeclares N ids ids') (h : Thins N a b) :
    Thins N [.block ids a] [.block ids' b] := scope hids h (.refl _) (.refl _)

theorem opened {ids : List Ident} (hids : ∀ d ∈ ids, .name d.name ∈ N) (a : List ScopeTree) :
    Thins N [.block ids a] a where
  kept := by
    simp only [occurrencesOf, ScopeTree.block, ScopeTree.occurrences, List.append_nil]
    exact List.Sublist.refl _
  right env env' henv h := by
    obtain ⟨hright, -⟩ := h
    rw [ScopeTree.right_block] at hright
    refine ScopeTree.rightOf_close a ?_ hright.2
    have hlost : Redeclares N ids [] := .lost fun d hd => .inl (hids d hd)
    exact hlost.close henv hright.1

/-- A block that declares nothing can take the place of anything. -/
theorem hollow (a : List ScopeTree) : Thins N a [.block [] []] where
  kept := List.nil_sublist _
  right _ _ _ _ := by simp [rightOf, ScopeTree.right_block, Scoping.Declares]

end Thins

end Untangle
