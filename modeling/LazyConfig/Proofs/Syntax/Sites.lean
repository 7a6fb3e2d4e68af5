import LazyConfig.Proofs.Syntax.Composition
import Mathlib.Data.List.Pairwise

/-!
# Sites in a tree

Where the containers and the references of a tree start. Each of them starts where a token does that
the tree is put together from, and these tokens stand in their order, so that in the tree of a text
no two of them start at the same place.
-/

namespace LazyConfig

open Syntax (Bounds)

namespace Node

mutual

/-- The containers and references of a tree, each with the place where it starts. -/
def sites : Node → List (Location × Node)
  | leaf _ => []
  | unary _ operand _ => operand.sites
  | reference path sigil => (sigil, reference path sigil) :: path.sites
  | binary _ left right => left.sites ++ right.sites
  | member base _ => base.sites
  | index base operand => base.sites ++ operand.sites
  | slice base bounds => base.sites ++ boundsSites bounds
  | list elements span => (span.start, list elements span) :: allSites elements
  | mapping entries span => (span.start, mapping entries span) :: entriesSites entries

def boundsSites : Bounds Node → List (Location × Node)
  | ⟨start, stop, step, _⟩ => boundSites start ++ boundSites stop ++ boundSites step

def boundSites : Option Node → List (Location × Node)
  | none => []
  | some bound => bound.sites

def allSites : List Node → List (Location × Node)
  | [] => []
  | node :: rest => node.sites ++ allSites rest

def entriesSites : List (Token × Node) → List (Location × Node)
  | [] => []
  | (_, node) :: rest => node.sites ++ entriesSites rest

end

/-- Where the containers and references of a tree start. -/
def starts (n : Node) : List Location := n.sites.map (·.1)

/-- No two containers or references of a tree start at one place. -/
def Sited (n : Node) : Prop := n.starts.Pairwise (· < ·)

theorem allSites_eq (nodes : List Node) : allSites nodes = nodes.flatMap sites := by
  induction nodes with
  | nil => rfl
  | cons node rest ih => rw [allSites, ih, List.flatMap_cons]

theorem entriesSites_eq (entries : List (Token × Node)) :
    entriesSites entries = entries.flatMap (·.2.sites) := by
  induction entries with
  | nil => rfl
  | cons entry rest ih => rw [entriesSites, ih, List.flatMap_cons]

/-- What starts at a place of a tree. -/
theorem Sited.unique {n a b : Node} {l : Location} (sited : n.Sited) (first : (l, a) ∈ n.sites)
    (second : (l, b) ∈ n.sites) : a = b := by
  have apart : n.sites.Pairwise fun x y => x.1 = y.1 → x = y :=
    (List.pairwise_map.mp sited).imp fun less same => absurd same less.ne
  have symmetric : Std.Symm fun x y : Location × Node => x.1 = y.1 → x = y :=
    ⟨fun _ _ holds same => (holds same.symm).symm⟩
  exact (Prod.mk.inj (apart.forall_of_forall (fun _ _ _ => rfl) first second rfl)).2

end Node

namespace Syntax

open Token (Stream)

/-! ### Trees of a text -/

/-- Where the containers and references of a part start. The keys of entries count, too, because a
mapping without brackets starts where its first key does. -/
def Part.starts : Part → List Location
  | .token t => [t.span.start]
  | .tree n => n.starts
  | .trees ns => ns.flatMap Node.starts
  | .entries es => es.flatMap fun (key, value) => key.span.start :: value.starts
  | .bound b => b.toList.flatMap Node.starts

@[simp] theorem Part.starts_tree (n : Node) : (Part.tree n).starts = n.starts := rfl

theorem starts_slice (base : Node) (bounds : Bounds Node) :
    (Node.slice base bounds).starts = base.starts ++ (Part.bound bounds.start).starts ++
      (Part.bound bounds.stop).starts ++ (Part.bound bounds.step).starts := by
  have bound (b : Option Node) : (Node.boundSites b).map (·.1) = (Part.bound b).starts := by
    cases b <;> simp [Part.starts, Node.boundSites, Node.starts]
  obtain ⟨start, stop, step, span⟩ := bounds
  simp [Node.starts, Node.sites, Node.boundsSites, bound]

theorem starts_list (elements : List Node) (span : Span) :
    (Node.list elements span).starts = span.start :: (Part.trees elements).starts := by
  simp only [Node.starts, Node.sites, Node.allSites_eq, List.map_cons, List.map_flatMap]
  rfl

/-- The values of a mapping have all its starts but the first one. -/
theorem starts_mapping (entries : List (Token × Node)) (span : Span) :
    (Node.mapping entries span).starts = span.start :: entries.flatMap (·.2.starts) := by
  simp only [Node.starts, Node.sites, Node.entriesSites_eq, List.map_cons, List.map_flatMap]

theorem values_sublist (entries : List (Token × Node)) :
    (entries.flatMap (·.2.starts)).Sublist (Part.entries entries).starts := by
  induction entries with
  | nil => exact .slnil
  | cons entry entries ih => exact (List.sublist_cons_self _ _).append ih

/-- The containers and references of a part start where tokens do that it is put together from. -/
theorem Composed.starts_sublist {part : Part} {tokens : List Token}
    (composed : Composed part tokens) : part.starts.Sublist (tokens.map (·.span.start)) := by
  induction composed with
  | token join =>
    rw [Part.starts, start_joinStrings? join, List.map_cons]
    exact (List.nil_sublist _).cons_cons _
  | leaf => exact List.nil_sublist _
  | unary _ ih => exact ih.cons _
  | reference _ ih => exact ih.cons_cons _
  | binary _ _ ihLeft ihRight =>
    simpa [Part.starts, Node.starts, Node.sites] using ihLeft.append ihRight
  | member _ ih =>
    rw [List.map_append]
    exact ih.trans (List.sublist_append_left _ _)
  | index _ _ ihBase ihOperand =>
    simpa [Part.starts, Node.starts, Node.sites] using ihBase.append (ihOperand.cons _)
  | @slice _ _ _ _ opening closing _ _ _ _ _ _ _ _ ihBase ihStart ihStop ihStep =>
    -- the brackets of the slice are no starts
    have bounds := ((ihStart.append ihStop).append ihStep).cons opening.span.start
    have whole := (ihBase.append bounds).trans (List.sublist_append_left _ [closing.span.start])
    rw [Part.starts, starts_slice]
    simpa using whole
  | @list opening closing _ _ _ ih =>
    rw [Part.starts, starts_list]
    have whole := (ih.cons_cons opening.span.start).trans
      (List.sublist_append_left _ [closing.span.start])
    simpa using whole
  | @mapping opening closing entries _ _ ih =>
    rw [Part.starts, starts_mapping]
    have values := (values_sublist entries).trans ih
    have whole := (values.cons_cons opening.span.start).trans
      (List.sublist_append_left _ [closing.span.start])
    simpa using whole
  | @body key value rest _ _ _ isStart _ ih =>
    refine List.Sublist.trans ?_ ih
    rw [Part.starts, starts_mapping, isStart]
    exact ((List.Sublist.refl _).append (values_sublist rest)).cons_cons _
  | noTrees => exact .slnil
  | trees _ _ ihFirst ihRest => simpa [Part.starts] using ihFirst.append ihRest
  | noEntries => exact .slnil
  | entries _ _ _ ihKey ihValue ihRest =>
    simpa [Part.starts] using (ihKey.append ihValue).append ihRest
  | noBound => exact .slnil
  | bound _ ih => simpa [Part.starts] using ih

/-- A whole tree has its containers and references at places of their own. -/
theorem Whole.sited {c : Course} {root : Node} (whole : Whole c root)
    (ordered : c.origin.Ordered) : root.Sited := by
  rcases whole with ⟨taken, left, composed, stands⟩ | ⟨span, rfl, -⟩
  · obtain ⟨-, apart, -⟩ := stands.reaches.ordered ordered
    have sorted : (taken.map (·.span.start)).Pairwise (· < ·) := by
      rw [List.pairwise_map]
      refine apart.apart.imp_of_mem fun first _ less => ?_
      exact (apart.order _ first).trans_lt less
    exact sorted.sublist composed.starts_sublist
  · rw [Node.Sited, starts_mapping]
    exact List.pairwise_singleton _ _

theorem yields_rootTree {text : Text.Decoded} {source : Nat} {s : Stream}
    (made : Stream.ofText text source = .ok s) :
    Parser.Yields s Document.rootTree fun root _ => root.Sited := by
  have sound : s.Sound (fun _ => True) (fun _ => True) :=
    sound_ofText made (fun _ _ => trivial) fun _ _ => trivial
  let course : Course := ⟨s, fun _ => True, fun _ => True⟩
  have ends : Parser.Ends course.Blames s Document.rootTree fun root _ => Whole course root :=
    Course.ends_rootTree ⟨.start, sound⟩
  exact ends.yields.mono fun root _ whole => whole.sited (Stream.ordered_ofText made)

end Syntax

end LazyConfig
