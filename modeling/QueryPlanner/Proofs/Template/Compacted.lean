import Mathlib.Data.List.Chain
import QueryPlanner.Template.Compaction

/-!
# Compacted templates

Compaction leaves no node that lays text out, no empty text and no two texts side by side, inside of
branches and bodies as well as outside.  While a template is compacted, the text after the finished
nodes is held back until another node comes, so the finished nodes never end in a text.  Blanks
before a closing parenthesis go only from text that is held back, and in a compacted template none
is when the next text comes: compacting it again changes nothing.

## Main definitions

* `Node.isCompact`, `Node.areCompact` — nodes as compaction leaves them, at every level.
* `Draft.Compact` — a template being compacted whose finished nodes can take another text.

## Main results

* `Draft.compact_addAll` — adding nodes to a draft keeps it compact.
* `Draft.finish_addAll_of_areCompact` — compact nodes are added as they are.
* `compile_compile` — **compacted templates are in normal form**, and compaction is idempotent.
-/

namespace QueryPlanner

namespace Template

namespace Node

/-! ### Compact nodes -/

/-- Whether a node is literal text. -/
def isText : Node → Bool
  | .text _ => true
  | _ => false

mutual

/-- Whether a node is one that compaction leaves: no layout and no empty text, at any level, and no
two texts side by side. -/
def isCompact : Node → Bool
  | .text literal => literal != ""
  | .container _ _ => false
  | .variant _ main alternative => areCompact main && areCompact alternative
  | .placeholder _ _ => true
  | .cycle _ body _ emptyCase => areCompact body && areCompact emptyCase
  | .item _ => true
  | .delimiter _ _ => false

/-- Whether nodes are what compaction leaves. -/
def areCompact : List Node → Bool
  | [] => true
  | n :: ns => isCompact n && !(n.isText && ns.head?.any isText) && areCompact ns

end

/-- Compact nodes are each compact, and no two texts stand side by side. -/
theorem areCompact_iff (ns : List Node) : areCompact ns ↔
    (∀ n ∈ ns, n.isCompact) ∧ ns.IsChain fun a b => ¬ (a.isText ∧ b.isText) := by
  induction ns with
  | nil => simp [areCompact]
  | cons n ns ih =>
    cases ns with
    | nil => simp [areCompact]
    | cons m ms =>
      have hapart : (!(n.isText && (m :: ms).head?.any isText)) = true ↔
          ¬ (n.isText ∧ m.isText) := by
        cases hn : n.isText <;> cases hm : m.isText <;> simp [hm]
      have heach : (∀ k ∈ n :: m :: ms, k.isCompact) ↔ n.isCompact ∧ ∀ k ∈ m :: ms, k.isCompact :=
        List.forall_mem_cons
      rw [areCompact, Bool.and_eq_true, Bool.and_eq_true, ih, hapart, List.isChain_cons_cons, heach]
      exact and_and_and_comm

/-- A compact node may follow compact ones, unless it is a text after a text. -/
theorem areCompact_concat {ns : List Node} {n : Node} (hns : areCompact ns) (hn : n.isCompact)
    (h : ∀ m ∈ ns.getLast?, ¬ (m.isText ∧ n.isText)) : areCompact (ns ++ [n]) := by
  obtain ⟨heach, hchain⟩ := (areCompact_iff ns).mp hns
  refine (areCompact_iff _).mpr ⟨fun m hm => ?_, List.isChain_append.mpr ⟨hchain, ?_, ?_⟩⟩
  · rcases List.mem_append.mp hm with hm | hm
    · exact heach m hm
    · rwa [List.mem_singleton.mp hm]
  · exact List.IsChain.singleton n
  · intro m hm k hk
    obtain rfl := Option.some.inj hk
    exact h m hm

end Node

namespace Draft

/-! ### What adding nodes keeps -/

/-- The finished nodes are compact and do not end in a text, so another text can follow them. -/
structure Compact (d : Draft) : Prop where
  areCompact : Node.areCompact d.nodes
  last_ne : ∀ n ∈ d.nodes.getLast?, ¬ n.isText

theorem compact_empty : empty.Compact := ⟨rfl, by simp [empty]⟩

/-- Only the text held back changes. -/
theorem Compact.of_nodes_eq {d e : Draft} (h : d.Compact) (hnodes : e.nodes = d.nodes) :
    e.Compact :=
  ⟨hnodes ▸ h.areCompact, hnodes ▸ h.last_ne⟩

/-- The text held back becomes one text after the finished nodes, if there is any. -/
theorem Compact.areCompact_finish {d : Draft} (h : d.Compact) : Node.areCompact d.finish := by
  unfold finish flush
  split
  · exact h.areCompact
  · rename_i hpending
    refine Node.areCompact_concat h.areCompact ?_ fun m hm hboth => h.last_ne m hm hboth.1
    have hne : d.pending ≠ [] := by simpa using hpending
    simpa [Node.isCompact, ← String.toList_inj] using hne

theorem Compact.push {d : Draft} (h : d.Compact) {n : Node} (hn : n.isCompact)
    (htext : ¬ n.isText) : (d.push n).Compact := by
  refine ⟨Node.areCompact_concat h.areCompact_finish hn fun m _ hboth => htext hboth.2, ?_⟩
  intro m hm
  obtain rfl : n = m := by simpa [Draft.push] using hm
  exact htext

mutual

/-- **Adding a node keeps a draft compact.** -/
theorem compact_add (width : Nat) : ∀ (n : Node) (level : Nat) {d : Draft}, d.Compact →
    (d.add width level n).Compact
  | .text _, _, _, h => h.of_nodes_eq rfl
  | .container children false, level, _, h => compact_addAll width children level h
  | .container children true, level, d, h => by
    have hopen : (d.newline ((level + 1) * width)).Compact := h.of_nodes_eq rfl
    exact (compact_addAll width children (level + 1) hopen).of_nodes_eq rfl
  | .variant _ main alternative, level, _, h => by
    -- The branches are drafts of their own, which start out empty.
    have hmain := (compact_addAll width main level compact_empty).areCompact_finish
    have halternative := (compact_addAll width alternative level compact_empty).areCompact_finish
    exact h.push (by simp [Node.isCompact, hmain, halternative]) (by simp [Node.isText])
  | .placeholder _ _, _, _, h => h.push rfl (by simp [Node.isText])
  | .cycle _ body _ emptyCase, level, _, h => by
    have hbody := (compact_addAll width body level compact_empty).areCompact_finish
    have hempty := (compact_addAll width emptyCase level compact_empty).areCompact_finish
    exact h.push (by simp [Node.isCompact, hbody, hempty]) (by simp [Node.isText])
  | .item _, _, _, h => h.push rfl (by simp [Node.isText])
  | .delimiter _ .column, _, _, h => h.of_nodes_eq rfl
  | .delimiter _ .row, _, _, h => h.of_nodes_eq rfl

theorem compact_addAll (width : Nat) : ∀ (ns : List Node) (level : Nat) {d : Draft}, d.Compact →
    (d.addAll width level ns).Compact
  | [], _, _, h => h
  | n :: ns, level, _, h => compact_addAll width ns level (compact_add width n level h)

end

/-! ### Compact nodes are added as they are -/

theorem finish_of_pending_nil {d : Draft} (h : d.pending = []) : d.finish = d.nodes := by
  simp [finish, flush, h]

theorem finish_push (d : Draft) (n : Node) : (d.push n).finish = d.finish ++ [n] :=
  finish_of_pending_nil rfl

/-- Text added where none is held back stays as it is, also if it starts with a closing parenthesis.
-/
theorem finish_append {d : Draft} (h : d.pending = []) {literal : String} (hne : literal ≠ "") :
    (d.append literal).finish = d.finish ++ [.text literal] := by
  have hchars : literal.toList ≠ [] := mt String.toList_eq_nil_iff.mp hne
  have hpending : (d.append literal).pending = literal.toList.reverse := by
    simp [append, h, trim]
  rw [finish_of_pending_nil h, finish, flush, hpending]
  simp [hchars, append]

theorem pending_add {n : Node} (hn : n.isCompact) (htext : ¬ n.isText) (width level : Nat)
    (d : Draft) : (d.add width level n).pending = [] := by
  cases n with
  | text _ => exact absurd rfl htext
  | container _ _ | delimiter _ _ => simp [Node.isCompact] at hn
  | variant _ _ _ | placeholder _ _ | cycle _ _ _ _ | item _ => rfl

mutual

theorem finish_add_of_isCompact (width : Nat) :
    ∀ (n : Node) (level : Nat) (d : Draft), n.isCompact →
    (n.isText → d.pending = []) → (d.add width level n).finish = d.finish ++ [n]
  | .text literal, _, d, hn, hpending =>
    finish_append (hpending rfl) (by simpa [Node.isCompact] using hn)
  | .container _ _, _, _, hn, _ => by simp [Node.isCompact] at hn
  | .variant id main alternative, level, d, hn, _ => by
    simp only [Node.isCompact, Bool.and_eq_true] at hn
    have hmain := finish_addAll_of_areCompact width main level empty hn.1 fun _ _ _ => rfl
    have halternative :=
      finish_addAll_of_areCompact width alternative level empty hn.2 fun _ _ _ => rfl
    rw [add, finish_push, hmain, halternative]
    rfl
  | .placeholder _ _, _, d, _, _ => finish_push d _
  | .cycle id body separator emptyCase, level, d, hn, _ => by
    simp only [Node.isCompact, Bool.and_eq_true] at hn
    have hbody := finish_addAll_of_areCompact width body level empty hn.1 fun _ _ _ => rfl
    have hempty := finish_addAll_of_areCompact width emptyCase level empty hn.2 fun _ _ _ => rfl
    rw [add, finish_push, hbody, hempty]
    rfl
  | .item _, _, d, _, _ => finish_push d _
  | .delimiter _ _, _, _, hn, _ => by simp [Node.isCompact] at hn

/-- **Compact nodes are added as they are**, unless they start with a text and another one is held
back. -/
theorem finish_addAll_of_areCompact (width : Nat) : ∀ (ns : List Node) (level : Nat) (d : Draft),
    Node.areCompact ns → (∀ n ∈ ns.head?, n.isText → d.pending = []) →
    (d.addAll width level ns).finish = d.finish ++ ns
  | [], _, d, _, _ => (List.append_nil d.finish).symm
  | n :: ns, level, d, hns, hpending => by
    simp only [Node.areCompact, Bool.and_eq_true] at hns
    obtain ⟨⟨hn, hapart⟩, hns⟩ := hns
    have hnext : ∀ m ∈ ns.head?, m.isText → (d.add width level n).pending = [] := by
      intro m hm htext
      refine pending_add hn (fun hntext => ?_) width level d
      simp [hntext, Option.mem_def.mp hm, htext] at hapart
    rw [addAll, finish_addAll_of_areCompact width ns level (d.add width level n) hns hnext,
      finish_add_of_isCompact width n level d hn (hpending n rfl), List.append_assoc]
    rfl

end

end Draft

/-! ### Compacted templates -/

theorem areCompact_nodes_compile (width : Nat) (nodes : List Node) :
    Node.areCompact (compile width nodes).nodes :=
  (Draft.compact_addAll width nodes 0 Draft.compact_empty).areCompact_finish

/-- Compact nodes are compacted to themselves. -/
theorem nodes_compile_of_areCompact (width : Nat) {nodes : List Node} (h : Node.areCompact nodes) :
    (compile width nodes).nodes = nodes :=
  Draft.finish_addAll_of_areCompact width nodes 0 .empty h fun _ _ _ => rfl

/-- **Compacted templates are in normal form.**  At every level they hold no layout, no empty text
and no two texts side by side; compacted again, with any width of indentation, they and the size of
their literal text stay the same; and only such templates are left as they are. -/
theorem compile_compile (width : Nat) (nodes : List Node) :
    Node.areCompact (compile width nodes).nodes ∧
      (∀ again : Nat, compile again (compile width nodes).nodes = compile width nodes) ∧
      ((compile width nodes).nodes = nodes ↔ Node.areCompact nodes) := by
  have hcompact := areCompact_nodes_compile width nodes
  refine ⟨hcompact, fun again => ?_, fun h => h ▸ hcompact, nodes_compile_of_areCompact width⟩
  have hnodes := nodes_compile_of_areCompact again hcompact
  -- The size is counted on the nodes, so it is the same once they are.
  calc compile again (compile width nodes).nodes
      = ⟨(compile again (compile width nodes).nodes).nodes,
          Node.literalSizeAll (compile again (compile width nodes).nodes).nodes⟩ := rfl
    _ = ⟨(compile width nodes).nodes, Node.literalSizeAll (compile width nodes).nodes⟩ := by
      rw [hnodes]
    _ = compile width nodes := rfl

end Template

end QueryPlanner
