import Mathlib

/-!
# Threads and warehouses of a node (`main.c`, `driver.c`)

With several nodes each thread belongs to one of them, and its transactions are for the warehouses of that
node. Which node and which warehouses is computed by divisions of products that are cut off. `main` refuses
numbers that the number of nodes does not divide, so nothing is cut off from the bounds of a range
(`nodeMin_eq`, `nodeMax_eq`), and the threads of a node are those between two multiples (`cNum_eq`).
-/

namespace MysqlBench.Tpcc

def mulInt (a b : Int) : Int := (a * b).bmod (2 ^ 32)

def nodesAccepted (numNode numWare numConn : Int) : Prop :=
  0 < numNode → numWare.tmod numNode = 0 ∧ numConn.tmod numNode = 0

instance (numNode numWare numConn : Int) : Decidable (nodesAccepted numNode numWare numConn) :=
  inferInstanceAs (Decidable (_ → _))

/-- `c_num` of `do_neword` and the other drivers, and the index of `node_string` in `thread_main`. -/
def cNum (numNode numConn tNum : Int) : Int := (mulInt numNode tNum).tdiv numConn

def nodeMin (numNode numWare c : Int) : Int := 1 + (mulInt numWare c).tdiv numNode

def nodeMax (numNode numWare c : Int) : Int := (mulInt numWare (c + 1)).tdiv numNode

theorem mulInt_eq {a b m : Int} (ha : 0 ≤ a) (hb : 0 ≤ b) (hbm : b ≤ m) (h : a * m < 2 ^ 31) :
    mulInt a b = a * b := by
  have h₁ := mul_nonneg ha hb
  have h₂ := mul_le_mul_of_nonneg_left hbm ha
  exact Int.bmod_eq_of_le (by omega) (by omega)

section Partition

variable {numNode a b c t : Int} (hnode : 0 < numNode)

include hnode

theorem cNum_eq (hprod : numNode * (numNode * b - 1) < 2 ^ 31) (ht : 0 ≤ t) (htb : t < numNode * b) :
    cNum numNode (numNode * b) t = t / b := by
  rw [cNum, mulInt_eq hnode.le ht (by omega) hprod, Int.mul_tdiv_mul_of_pos _ _ hnode,
    Int.tdiv_eq_ediv_of_nonneg ht]

theorem mulInt_node_tdiv (ha : 0 < a) (hprod : numNode * a * numNode < 2 ^ 31) (hc : 0 ≤ c)
    (hcn : c ≤ numNode) : (mulInt (numNode * a) c).tdiv numNode = a * c := by
  rw [mulInt_eq (mul_pos hnode ha).le hc hcn hprod, mul_assoc, Int.mul_tdiv_cancel_left _ hnode.ne']

theorem nodeMin_eq (ha : 0 < a) (hprod : numNode * a * numNode < 2 ^ 31) (hc : 0 ≤ c) (hcn : c < numNode) :
    nodeMin numNode (numNode * a) c = 1 + a * c := by
  rw [nodeMin, mulInt_node_tdiv hnode ha hprod hc hcn.le]

theorem nodeMax_eq (ha : 0 < a) (hprod : numNode * a * numNode < 2 ^ 31) (hc : 0 ≤ c) (hcn : c < numNode) :
    nodeMax numNode (numNode * a) c = a * (c + 1) :=
  mulInt_node_tdiv hnode ha hprod (by omega) hcn

end Partition

theorem card_ediv_eq {b c n : Int} (hb : 0 < b) (hc : 0 ≤ c) (hcn : c < n) :
    ((((Finset.Ico 0 (n * b)).filter fun t => t / b = c).card : Nat) : Int) = b := by
  have hfilter : ((Finset.Ico 0 (n * b)).filter fun t => t / b = c) = Finset.Ico (c * b) (c * b + b) := by
    ext t
    rw [Finset.mem_filter, Finset.mem_Ico, Finset.mem_Ico, Int.ediv_eq_iff_of_pos hb]
    have h₁ := mul_nonneg hc hb.le
    have h₂ := mul_le_mul_of_nonneg_right (show c + 1 ≤ n by omega) hb.le
    rw [add_mul, one_mul] at h₂
    exact ⟨fun h => by omega, fun h => by omega⟩
  rw [hfilter, Int.card_Ico]
  omega

theorem mem_range_iff {a c w : Int} (ha : 0 < a) : 1 + a * c ≤ w ∧ w ≤ a * (c + 1) ↔ (w - 1) / a = c := by
  rw [Int.ediv_eq_iff_of_pos ha, mul_add, mul_one, mul_comm c a]
  omega

/-- Every thread has a node, every node has as many threads as any other, and each warehouse belongs to
exactly one node. -/
theorem node_partition {numNode numWare numConn : Int} (hnode : 1 ≤ numNode) (hware : 1 ≤ numWare)
    (hconn : 1 ≤ numConn) (hacc : nodesAccepted numNode numWare numConn)
    (hthreads : numNode * (numConn - 1) < 2 ^ 31) (hwares : numWare * numNode < 2 ^ 31) :
    (∀ t, 0 ≤ t → t < numConn → 0 ≤ cNum numNode numConn t ∧ cNum numNode numConn t < numNode) ∧
    (∀ c, 0 ≤ c → c < numNode →
      (((Finset.Ico 0 numConn).filter fun t => cNum numNode numConn t = c).card : Int) = numConn / numNode ∧
      nodeMin numNode numWare c ≤ nodeMax numNode numWare c) ∧
    ∀ w, (1 ≤ w ∧ w ≤ numWare →
        ∃! c, 0 ≤ c ∧ c < numNode ∧ nodeMin numNode numWare c ≤ w ∧ w ≤ nodeMax numNode numWare c) ∧
      ∀ c, 0 ≤ c → c < numNode → nodeMin numNode numWare c ≤ w → w ≤ nodeMax numNode numWare c →
        1 ≤ w ∧ w ≤ numWare := by
  obtain ⟨hdvd, hdvd'⟩ := hacc (by omega)
  obtain ⟨a, rfl⟩ := Int.dvd_of_tmod_eq_zero hdvd
  obtain ⟨b, rfl⟩ := Int.dvd_of_tmod_eq_zero hdvd'
  have hpos : 0 < numNode := by omega
  have ha : 0 < a := pos_of_mul_pos_right (by omega) hpos.le
  have hb : 0 < b := pos_of_mul_pos_right (by omega) hpos.le
  -- the ranges are those of a division by the number of warehouses of a node
  have hbounds : ∀ c w, 0 ≤ c → c < numNode →
      (nodeMin numNode (numNode * a) c ≤ w ∧ w ≤ nodeMax numNode (numNode * a) c ↔ (w - 1) / a = c) := by
    intro c w hc hcn
    rw [nodeMin_eq hpos ha hwares hc hcn, nodeMax_eq hpos ha hwares hc hcn, mem_range_iff ha]
  have hnode_of : ∀ w, 1 ≤ w ∧ w ≤ numNode * a ↔ 0 ≤ (w - 1) / a ∧ (w - 1) / a < numNode := by
    intro w
    rw [Int.ediv_lt_iff_lt_mul ha, Int.ediv_nonneg_iff_of_pos ha]
    omega
  refine ⟨fun t ht htb => ?_, fun c hc hcn => ⟨?_, ?_⟩, fun w => ⟨fun hw => ?_, fun c hc hcn h₁ h₂ => ?_⟩⟩
  · rw [cNum_eq hpos hthreads ht htb]
    exact ⟨Int.ediv_nonneg ht hb.le, Int.ediv_lt_of_lt_mul hb htb⟩
  · have hfilter : ((Finset.Ico 0 (numNode * b)).filter fun t => cNum numNode (numNode * b) t = c) =
        (Finset.Ico 0 (numNode * b)).filter fun t => t / b = c := by
      refine Finset.filter_congr fun t ht => ?_
      rw [Finset.mem_Ico] at ht
      rw [cNum_eq hpos hthreads ht.1 ht.2]
    rw [hfilter, card_ediv_eq hb hc hcn, Int.mul_ediv_cancel_left _ hpos.ne']
  · rw [nodeMin_eq hpos ha hwares hc hcn, nodeMax_eq hpos ha hwares hc hcn, mul_add]
    omega
  · obtain ⟨h₁, h₂⟩ := (hnode_of w).mp hw
    exact ⟨(w - 1) / a, ⟨h₁, h₂, (hbounds _ w h₁ h₂).mpr rfl⟩, fun c hc =>
      ((hbounds c w hc.1 hc.2.1).mp hc.2.2).symm⟩
  · have hc' := (hbounds c w hc hcn).mp ⟨h₁, h₂⟩
    exact (hnode_of w).mpr (hc' ▸ ⟨hc, hcn⟩)

/-- Two nodes, four warehouses and six connections. -/
theorem node_partition_two : (∀ t : Int, 0 ≤ t → t < 6 → 0 ≤ cNum 2 6 t ∧ cNum 2 6 t < 2) ∧
    nodeMin 2 4 1 ≤ nodeMax 2 4 1 := by
  have h := @node_partition 2 4 6 (by decide) (by decide) (by decide) (by decide) (by decide) (by decide)
  exact ⟨h.1, (h.2.1 1 (by decide) (by decide)).2⟩

end MysqlBench.Tpcc
