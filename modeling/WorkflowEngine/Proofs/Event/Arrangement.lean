import WorkflowEngine.Event.Arrangement
import WorkflowEngine.Proofs.Interleaving
import WorkflowEngine.Proofs.Node.Places

/-!
# Arranged logs

How an arranged log is put together. The bound on the number of events is never met: events that
start no parallel block stay where they are, and the block of a parallel node is what follows its
start up to the next event of none of its descendants. Main statement: what interleaves events of
the children of a node is dealt out to these children again.
-/

namespace WorkflowEngine.Arrangement

open Node

theorem belongsTo_iff {names : List String} {e : WorkflowEvent} :
    belongsTo names e ↔ ∃ x, e.kind.stepName? = some x ∧ x ∈ names := by
  unfold belongsTo
  cases e.kind.stepName? <;> simp

theorem belongsTo_mono {part whole : List Node}
    (h : ∀ m ∈ descendants part, m ∈ descendants whole) {e : WorkflowEvent}
    (he : belongsTo (names part) e) : belongsTo (names whole) e := by
  obtain ⟨x, hx, hmem⟩ := belongsTo_iff.1 he
  obtain ⟨m, hm, rfl⟩ := List.mem_map.1 hmem
  exact belongsTo_iff.2 ⟨_, hx, List.mem_map_of_mem (h m hm)⟩

theorem deal_congr {f g : Node → List WorkflowEvent → List WorkflowEvent} {bound : Nat}
    (h : ∀ child l, l.length ≤ bound → f child l = g child l) (children : List Node)
    {l : List WorkflowEvent} (hl : l.length ≤ bound) : deal f children l = deal g children l := by
  induction children generalizing l with
  | nil => rfl
  | cons child rest ih =>
    have hfilter (p : WorkflowEvent → Bool) : (l.filter p).length ≤ bound :=
      Nat.le_trans (List.length_filter_le ..) hl
    unfold deal
    rw [List.partition_eq_filter_filter]
    dsimp only
    rw [h child _ (hfilter _), ih (hfilter _)]

theorem arrangeUpTo_eq {n m : Nat} (nodes : List Node) (l : List WorkflowEvent) (hn : l.length ≤ n)
    (hm : l.length ≤ m) : arrangeUpTo n nodes l = arrangeUpTo m nodes l := by
  induction n generalizing m nodes l with
  | zero =>
    obtain rfl : l = [] := List.length_eq_zero_iff.1 (Nat.le_zero.1 hn)
    cases m <;> rfl
  | succ n ih =>
    cases l with
    | nil => cases m <;> rfl
    | cons e rest =>
      obtain ⟨m, rfl⟩ : ∃ k, m = k + 1 := ⟨m - 1, by simp only [List.length_cons] at hm; omega⟩
      have hn : rest.length ≤ n := by simpa using hn
      have hm : rest.length ≤ m := by simpa using hm
      unfold arrangeUpTo
      split
      · split
        · dsimp only
          have hblock (p : WorkflowEvent → Bool) : (rest.takeWhile p).length ≤ rest.length :=
            (rest.takeWhile_sublist p).length_le
          have hothers (p : WorkflowEvent → Bool) : (rest.dropWhile p).length ≤ rest.length :=
            (rest.dropWhile_sublist p).length_le
          rw [deal_congr (g := fun child => arrangeUpTo m [child])
              (fun child l hl => ih _ _ (Nat.le_trans hl hn) (Nat.le_trans hl hm)) _ (hblock _),
            ih _ _ (Nat.le_trans (hothers _) hn) (Nat.le_trans (hothers _) hm)]
        · rw [ih _ _ hn hm]
      · rw [ih _ _ hn hm]

theorem deal_nil {f : Node → List WorkflowEvent → List WorkflowEvent} (h : ∀ child, f child [] = [])
    (children : List Node) : deal f children [] = [] := by
  induction children with
  | nil => rfl
  | cons child rest ih => simp [deal, h, ih]

theorem perm_deal {f : Node → List WorkflowEvent → List WorkflowEvent}
    (h : ∀ child l, (f child l).Perm l) (children : List Node) (l : List WorkflowEvent) :
    (deal f children l).Perm l := by
  induction children generalizing l with
  | nil => exact .refl _
  | cons child rest ih =>
    unfold deal
    rw [List.partition_eq_filter_filter]
    exact ((h child _).append (ih _)).trans (List.filter_append_perm _ l)

/-- An arranged log has the same events. -/
theorem perm_arrange (nodes : List Node) (l : List WorkflowEvent) : (arrange nodes l).Perm l := by
  have hupTo (n : Nat) : ∀ nodes l, (arrangeUpTo n nodes l).Perm l := by
    induction n with
    | zero => exact fun _ _ => .refl _
    | succ n ih =>
      intro nodes l
      cases l with
      | nil => exact .refl _
      | cons e rest =>
        unfold arrangeUpTo
        split
        · split
          · refine .cons _ (((perm_deal (fun child => ih [child]) _ _).append (ih _ _)).trans ?_)
            rw [List.takeWhile_append_dropWhile]
          · exact .cons _ (ih _ _)
        · exact .cons _ (ih _ _)
  exact hupTo _ nodes l

variable {nodes : List Node} {e : WorkflowEvent} {rest : List WorkflowEvent}

@[simp] theorem arrange_nil (nodes : List Node) : arrange nodes [] = [] := rfl

/-- An event that starts no parallel block stays where it is. -/
theorem arrange_cons (h : ∀ name children, e.kind ≠ .parallelStarted name children) :
    arrange nodes (e :: rest) = e :: arrange nodes rest := by
  unfold arrange
  rw [List.length_cons, arrangeUpTo]
  split
  · rename_i name children hk
    exact absurd hk (h name children)
  · rfl

theorem arrange_append {l : List WorkflowEvent}
    (h : ∀ e ∈ l, ∀ name children, e.kind ≠ .parallelStarted name children) :
    arrange nodes (l ++ rest) = l ++ arrange nodes rest := by
  induction l with
  | nil => rfl
  | cons e l ih =>
    rw [List.cons_append, arrange_cons (h e (by simp)), ih fun e he => h e (by simp [he]),
      List.cons_append]

/-- The block of a parallel node ends before the next event of none of its descendants. -/
theorem arrange_block {name : String} {children : List String} {node : Node}
    (hk : e.kind = .parallelStarted name children) (hf : find? nodes name = some node)
    {block : List WorkflowEvent} (hb : ∀ e ∈ block, belongsTo (names node.children) e)
    (hr : ∀ e, rest.head? = some e → belongsTo (names node.children) e = false) :
    arrange nodes (e :: (block ++ rest)) =
      e :: (deal (fun child => arrange [child]) node.children block ++ arrange nodes rest) := by
  have htake : (block ++ rest).takeWhile (belongsTo (names node.children)) = block := by
    rw [List.takeWhile_append_of_pos hb]
    cases rest with
    | nil => simp
    | cons e rest => rw [List.takeWhile_cons_of_neg (by simp [hr e rfl]), List.append_nil]
  have hdrop : (block ++ rest).dropWhile (belongsTo (names node.children)) = rest := by
    rw [List.dropWhile_append_of_pos hb]
    cases rest with
    | nil => rfl
    | cons e rest => rw [List.dropWhile_cons_of_neg (by simp [hr e rfl])]
  have hlength : block.length ≤ (block ++ rest).length := by simp
  unfold arrange
  rw [List.length_cons, arrangeUpTo, hk]
  dsimp only
  rw [hf]
  dsimp only
  rw [htake, hdrop, deal_congr (g := fun child l => arrangeUpTo l.length [child] l)
    (fun child l hl => arrangeUpTo_eq _ _ hl (Nat.le_refl _)) _ hlength,
    arrangeUpTo_eq nodes rest (by simp) (Nat.le_refl _)]

/-- Events of a child that are interleaved with those of the others are dealt out to it. -/
theorem deal_interleave {f : Node → List WorkflowEvent → List WorkflowEvent} {child : Node}
    {children : List Node} {own others l : List WorkflowEvent} (h : Interleave own others l)
    (hn : (names (child :: children)).Nodup) (hown : ∀ e ∈ own, belongsTo (names [child]) e)
    (hothers : ∀ e ∈ others, belongsTo (names children) e) :
    deal f (child :: children) l = f child own ++ deal f children others := by
  rw [names_cons] at hn
  have hnot (e : WorkflowEvent) (he : e ∈ others) : belongsTo (names [child]) e = false := by
    refine Bool.eq_false_iff.2 fun hchild => ?_
    obtain ⟨x, hx, hmem⟩ := belongsTo_iff.1 hchild
    obtain ⟨y, hy, hmem'⟩ := belongsTo_iff.1 (hothers e he)
    obtain rfl : x = y := Option.some.inj (hx.symm.trans hy)
    exact (List.nodup_append.1 hn).2.2 x hmem x hmem' rfl
  obtain ⟨hfl, hfr⟩ := h.filter hown hnot
  have hpartition : l.partition (belongsTo (names [child])) = (own, others) := by
    rw [List.partition_eq_filter_filter, hfl]
    exact congrArg (own, ·) hfr
  rw [deal, hpartition]

end WorkflowEngine.Arrangement
