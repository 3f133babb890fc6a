import ProcessDiagram.Proofs.Blocks.Fed
import ProcessDiagram.Proofs.Simulation.Moves

/-!
How often the elements of a row are left when exclusive gateways take one flow and parallel joins
use up one token for each branch: the tasks that survive the choices as often as the row is
entered, and the others never.
-/
namespace ProcessDiagram.Blocks

mutual

/-- Every split closes at a gateway of its own kind. -/
def Matched : Blocks → Prop
  | nil => True
  | task _ rest => Matched rest
  | split gateway branches join rest =>
    gateway.kind = join.kind ∧ AllMatched branches ∧ Matched rest

def AllMatched : List Blocks → Prop
  | [] => True
  | b :: others => Matched b ∧ AllMatched others

end

theorem allMatched_iff {branches : List Blocks} :
    AllMatched branches ↔ ∀ b ∈ branches, b.Matched := by
  induction branches with
  | nil => simp [AllMatched]
  | cons b others ih => simp [AllMatched, ih]

theorem matched_arranged {d : Diagram} (bs : Blocks) : bs.Matched → (bs.arranged d).Matched := by
  induction bs using Blocks.induction with
  | nil => exact id
  | task work rest ih => exact ih
  | split gateway branches join rest ihs ih =>
      intro h
      obtain ⟨same, inner, behind⟩ := h
      rw [arranged, arrangedAll_eq_map]
      refine ⟨same, allMatched_iff.mpr ?_, ih behind⟩
      intro b hb
      obtain ⟨b', hb', rfl⟩ := List.mem_map.mp (mem_of_mem_inOrder hb)
      exact ihs b' hb' (allMatched_iff.mp inner b' hb')

mutual

/-- The tasks that are left over when every gateway takes some of its flows. -/
def survivors (takes : Element → Nat → Bool) : Blocks → List Element
  | nil => []
  | task work rest => work :: survivors takes rest
  | split gateway branches _ rest =>
    (kept (takes gateway) (survivorsEach takes branches)).flatten ++ survivors takes rest

def survivorsEach (takes : Element → Nat → Bool) : List Blocks → List (List Element)
  | [] => []
  | b :: others => survivors takes b :: survivorsEach takes others

end

theorem survivorsEach_eq_map (takes : Element → Nat → Bool) (branches : List Blocks) :
    survivorsEach takes branches = branches.map (survivors takes) := by
  induction branches with
  | nil => rfl
  | cons b others ih => rw [survivorsEach, ih, List.map_cons]

variable {d : Diagram} {takes : Element → Nat → Bool}

theorem mem_survivors_split {gateway join w : Element} {branches : List Blocks} {rest : Blocks} :
    w ∈ (split gateway branches join rest).survivors takes ↔
      (∃ i b, branches[i]? = some b ∧ takes gateway i = true ∧ w ∈ b.survivors takes) ∨
        w ∈ rest.survivors takes := by
  rw [survivors, survivorsEach_eq_map, kept_map, List.mem_append, List.mem_flatten]
  simp only [List.mem_map, mem_kept]
  constructor
  · intro h
    cases h with
    | inl branch =>
        obtain ⟨_, ⟨b, ⟨i, hb, taken⟩, rfl⟩, hw⟩ := branch
        exact .inl ⟨i, b, hb, taken, hw⟩
    | inr behind => exact .inr behind
  · intro h
    cases h with
    | inl branch =>
        obtain ⟨i, b, hb, taken, hw⟩ := branch
        exact .inl ⟨_, ⟨b, ⟨i, hb, taken⟩, rfl⟩, hw⟩
    | inr behind => exact .inr behind

theorem survivors_subset (bs : Blocks) : ∀ w ∈ bs.survivors takes, w ∈ bs.elements := by
  induction bs using Blocks.induction with
  | nil =>
      intro w hw
      cases hw
  | task work rest ih =>
      intro w hw
      rw [survivors, List.mem_cons] at hw
      rw [elements, List.mem_cons]
      exact hw.imp_right (ih w)
  | split gateway branches join rest ihs ih =>
      intro w hw
      rw [mem_elements_split]
      cases mem_survivors_split.mp hw with
      | inl branch =>
          obtain ⟨i, b, hb, _, hw⟩ := branch
          have member := List.mem_of_getElem? hb
          exact .inr (.inl (mem_elementsAll.mpr ⟨b, member, ihs b member w hw⟩))
      | inr behind => exact .inr (.inr (.inr (ih w behind)))

theorem mem_survivors_branch {gateway join next : Element} {branches : List Blocks} {rest : Blocks}
    (placed : Placed d (split gateway branches join rest) next) {i : Nat} {b : Blocks}
    (hb : branches[i]? = some b) {w : Element} (hw : w ∈ b.elements) :
    w ∈ (split gateway branches join rest).survivors takes ↔
      takes gateway i = true ∧ w ∈ b.survivors takes := by
  have apart := placed.apart
  have inside := mem_elementsAll.mpr ⟨b, List.mem_of_getElem? hb, hw⟩
  rw [mem_survivors_split]
  constructor
  · intro h
    cases h with
    | inl branch =>
        obtain ⟨j, b', hb', taken, survives⟩ := branch
        have same := position_eq apart.inside_nodup hb hb' hw (survivors_subset b' w survives)
        subst same
        rw [Option.some.inj (hb.symm.trans hb')]
        exact ⟨taken, survives⟩
    | inr behind => exact absurd (survivors_subset rest w behind) (apart.inside_rest w inside)
  · intro h
    exact .inl ⟨i, b, hb, h⟩

theorem mem_survivors_rest {gateway join next : Element} {branches : List Blocks} {rest : Blocks}
    (placed : Placed d (split gateway branches join rest) next) {w : Element}
    (hw : w ∈ rest.elements) :
    w ∈ (split gateway branches join rest).survivors takes ↔ w ∈ rest.survivors takes := by
  rw [mem_survivors_split, or_iff_right]
  intro branch
  obtain ⟨i, b, hb, _, survives⟩ := branch
  have inside := mem_elementsAll.mpr ⟨b, List.mem_of_getElem? hb, survivors_subset b w survives⟩
  exact placed.apart.inside_rest w inside hw

section Plain

variable {c : ConfigStore} {left reached : Element → Nat}

theorem routes_of_single (d : Diagram) (c : ConfigStore) {e x : Element} (h : d.targets e = [x])
    (kind : e.kind ≠ .endEvent) : d.routes (d.takes c) e = [x] := by
  have one : (d.outgoing e).length = 1 := by
    have count := congrArg List.length h
    rw [Diagram.targets, List.length_map] at count
    exact count
  rw [Diagram.routes, h, kept_all]
  intro i
  rw [Diagram.takes]
  split
  next ended => exact absurd ended kind
  next => simp [one]
  next => rfl

theorem takes_of_split (plain : d.Plain c) {gateway : Element} (node : gateway ∈ d.nodes)
    {branches : List Blocks} {join : Element} (out : d.targets gateway = branches.map (entry · join))
    (several : 2 ≤ branches.length) (kind : gateway.kind.isGateway = true) :
    gateway.kind = .exclusiveGateway ∧
        d.takes c gateway = (fun i => i == d.chosenIndex c gateway) ∧
        d.chosenIndex c gateway < branches.length ∨
      gateway.kind = .parallelGateway ∧ ∀ i, d.takes c gateway i = true := by
  have count : (d.outgoing gateway).length = branches.length := by
    have same := congrArg List.length out
    rw [Diagram.targets, List.length_map, List.length_map] at same
    exact same
  have many : (d.outgoing gateway).length ≠ 1 := by omega
  cases which : gateway.kind with
  | exclusiveGateway =>
      left
      obtain ⟨f, hf, active⟩ := plain.chosen gateway node which many
      refine ⟨rfl, ?_, ?_⟩
      · funext i
        rw [Diagram.takes, which]
        simp [many]
      · rw [Diagram.chosenIndex, ← count]
        exact List.findIdx_lt_length_of_exists ⟨f, hf, beq_iff_eq.mpr active⟩
  | parallelGateway =>
      right
      refine ⟨rfl, ?_⟩
      intro i
      rw [Diagram.takes, which]
  | task | startEvent | endEvent | subProcess | intermediateCatchEvent | process | participant
  | collaboration | unknown =>
      rw [which] at kind
      cases kind

/-- A join uses up a token for each branch that is taken. -/
theorem share_join (plain : d.Plain c) {gateway join next : Element} {branches : List Blocks}
    {rest : Blocks} (placed : Placed d (split gateway branches join rest) next)
    (same : gateway.kind = join.kind) (incoming : (d.incoming join).length = branches.length) :
    d.share join = (kept (d.takes c gateway) branches).length ∧ 0 < d.share join := by
  obtain ⟨isSplit, _, several, _, _⟩ := placed.wellFormed
  cases takes_of_split plain placed.gateway_mem placed.linked.1 several isSplit with
  | inl choice =>
      obtain ⟨kind, taken, below⟩ := choice
      rw [share_of_kind (by rw [← same, kind]; decide), taken, kept_at,
        List.getElem?_eq_getElem below]
      exact ⟨rfl, Nat.one_pos⟩
  | inr both =>
      obtain ⟨kind, taken⟩ := both
      have holds : d.HoldsAt join := ⟨same ▸ kind, by omega⟩
      rw [Diagram.share, if_pos holds, kept_all taken]
      exact ⟨incoming, by omega⟩

/-- The flows into the elements of a row, of which one leads to its entry. -/
def Degrees (d : Diagram) (bs : Blocks) (next : Element) : Prop :=
  Fed d (fun _ _ => true) (fun _ => 1) (fun e => (d.incoming e).length) bs next 1

/-- What is carried through a row: every token is used up, the surviving tasks are left and the
tokens come out again. -/
structure Carried (d : Diagram) (c : ConfigStore) (left reached : Element → Nat) (bs : Blocks)
    (next : Element) (n : Nat) : Prop where
  used : ∀ e ∈ bs.elements, reached e = d.share e * left e
  tasks : ∀ w ∈ bs.elements, w.kind = .task →
    left w = if w ∈ bs.survivors (d.takes c) then n else 0
  onward : (if bs.entry next = next then n else 0)
    + d.inflow (d.takes c) left bs.elements next = n

section Task

variable {work next : Element} {rest : Blocks} {n : Nat}

theorem Carried.task (placed : Placed d (task work rest) next)
    (outside : next ∉ (task work rest).elements)
    (onward : d.routes (d.takes c) work = [rest.entry next])
    (used : reached work = d.share work * left work) (all : left work = n)
    (behind : Carried d c left reached rest next n) :
    Carried d c left reached (task work rest) next n := by
  refine ⟨?_, ?_, ?_⟩
  · intro e he
    cases List.mem_cons.mp he with
    | inl same => rw [same, used]
    | inr inside => exact behind.used e inside
  · intro w hw kind
    rw [survivors]
    cases List.mem_cons.mp hw with
    | inl same => rw [same, all, if_pos List.mem_cons_self]
    | inr inside =>
        have other : w ≠ work := fun same => (List.nodup_cons.mp placed.nodup).1 (same ▸ inside)
        rw [behind.tasks w inside kind]
        simp only [List.mem_cons, other, false_or]
  · rw [elements, List.mem_cons, not_or] at outside
    rw [entry, if_neg (Ne.symm outside.1), inflow_task onward, all, Nat.zero_add]
    exact behind.onward

end Task

section Split

variable {gateway join next : Element} {branches : List Blocks} {rest : Blocks} {n : Nat}

theorem share_gateway
    (p : Passing d (fun _ _ => true) gateway branches join rest next)
    (degrees : Degrees d (split gateway branches join rest) next) : d.share gateway = 1 := by
  apply share_of_not_holdsAt
  intro holds
  have one := p.gateway_reached degrees
  have more := holds.2
  omega

theorem incoming_join (p : Passing d (fun _ _ => true) gateway branches join rest next)
    (degrees : Degrees d (split gateway branches join rest) next) :
    (d.incoming join).length = branches.length := by
  have count := p.join_reached degrees rfl (by
    intro i b hb
    have member := List.mem_of_getElem? hb
    exact sends_one b join (p.placed.branch member)
      fun inside => p.placed.apart.join_inside (mem_elementsAll.mpr ⟨b, member, inside⟩))
  rw [kept_all fun _ => rfl, Nat.one_mul] at count
  exact count

/-- The branches are carried each for itself, and the rest with all tokens again. -/
theorem Carried.split (p : Passing d (d.takes c) gateway branches join rest next)
    (opened : reached gateway = d.share gateway * left gateway)
    (inner : ∀ (i : Nat) (b : Blocks), branches[i]? = some b →
      Carried d c left reached b join (if d.takes c gateway i then n else 0))
    (closed : reached join = d.share join * left join) (passed : left join = n)
    (behind : Carried d c left reached rest next n) :
    Carried d c left reached (split gateway branches join rest) next n := by
  obtain ⟨isSplit, isJoin, _, _, _⟩ := p.placed.wellFormed
  have branch : ∀ e ∈ elementsAll branches, ∃ (i : Nat) (b : Blocks),
      branches[i]? = some b ∧ e ∈ b.elements := by
    intro e he
    obtain ⟨b, hb, inside⟩ := mem_elementsAll.mp he
    obtain ⟨i, hi⟩ := List.mem_iff_getElem?.mp hb
    exact ⟨i, b, hi, inside⟩
  refine ⟨?_, ?_, ?_⟩
  · intro e he
    obtain rfl | inside | rfl | later := mem_elements_split.mp he
    · exact opened
    · obtain ⟨i, b, hb, inside⟩ := branch e inside
      exact (inner i b hb).used e inside
    · exact closed
    · exact behind.used e later
  · intro w hw kind
    obtain rfl | inside | rfl | later := mem_elements_split.mp hw
    · rw [kind] at isSplit
      cases isSplit
    · obtain ⟨i, b, hb, inside⟩ := branch w inside
      rw [(inner i b hb).tasks w inside kind]
      simp only [mem_survivors_branch p.placed hb inside]
      by_cases taken : d.takes c gateway i = true <;> simp [taken]
    · rw [kind] at isJoin
      cases isJoin
    · rw [behind.tasks w later kind]
      simp only [mem_survivors_rest p.placed later]
  · rw [p.entry_and_inflow passed n]
    exact behind.onward

end Split

theorem carried (plain : d.Plain c) (bs : Blocks) : ∀ next n, Placed d bs next →
    next ∉ bs.elements → bs.Matched → (∀ e ∈ bs.elements, left e = reached e / d.share e) →
    Degrees d bs next → Fed d (d.takes c) left reached bs next n →
    Carried d c left reached bs next n := by
  induction bs using Blocks.induction with
  | nil =>
      intro next n _ _ _ _ _ _
      refine ⟨nofun, nofun, ?_⟩
      rw [entry, if_pos rfl]
      rfl
  | task work rest ih =>
      intro next n placed outside matched leaving degrees fed
      have kind := placed.wellFormed.1
      have linked := placed.linked
      have onward := routes_of_single d c linked.1 (by rw [kind]; decide)
      have along : d.routes (fun _ _ => true) work = [rest.entry next] := by
        rw [Diagram.routes, kept_all fun _ => rfl, linked.1]
      obtain ⟨here, behind⟩ := fed.task placed.nodup outside linked.2 onward
      have share : d.share work = 1 := share_of_kind (by rw [kind]; decide)
      have all : left work = n := by
        rw [leaving work List.mem_cons_self, share, Nat.div_one, here]
      have later := ih next n placed.rest_of_task
        (fun inside => outside (List.mem_cons_of_mem _ inside)) matched
        (fun e he => leaving e (List.mem_cons_of_mem _ he))
        ((Fed.task placed.nodup outside linked.2 along degrees).2 rfl) (behind all)
      exact .task placed outside onward (by rw [here, all, share, Nat.one_mul]) all later
  | split gateway branches join rest ihs ih =>
      intro next n placed outside matched leaving degrees fed
      obtain ⟨sameKind, matchedAll, matchedRest⟩ := matched
      have p : Passing d (d.takes c) gateway branches join rest next := by
        refine ⟨placed, outside, routes_of_single d c placed.linked.2.2.1 ?_⟩
        intro ended
        have isJoin := placed.wellFormed.2.1
        rw [ended] at isJoin
        cases isJoin
      have q : Passing d (fun _ _ => true) gateway branches join rest next := by
        refine ⟨placed, outside, ?_⟩
        rw [Diagram.routes, kept_all fun _ => rfl, placed.linked.2.2.1]
      have single := share_gateway q degrees
      have all : left gateway = n := by
        rw [leaving gateway List.mem_cons_self, single, Nat.div_one, p.gateway_reached fed]
      have inner : ∀ (i : Nat) (b : Blocks), branches[i]? = some b →
          Carried d c left reached b join (if d.takes c gateway i then n else 0) := by
        intro i b hb
        have member := List.mem_of_getElem? hb
        apply ihs b member join _ (placed.branch member)
          (fun inside => placed.apart.join_inside (mem_elementsAll.mpr ⟨b, member, inside⟩))
          (allMatched_iff.mp matchedAll b member)
        · intro e he
          exact leaving e (mem_split_of_inside (mem_elementsAll.mpr ⟨b, member, he⟩))
        · exact q.branch_fed degrees rfl hb
        · exact p.branch_fed fed all hb
      obtain ⟨width, positive⟩ := share_join plain placed sameKind (incoming_join q degrees)
      have joined := p.join_reached fed all fun i b hb => (inner i b hb).onward
      rw [← width] at joined
      have passed : left join = n := by
        rw [leaving join join_mem_split, joined, Nat.mul_div_cancel _ positive]
      have later := ih next n placed.rest_of_split p.next_not_rest matchedRest
        (fun e he => leaving e (mem_split_of_rest he)) (q.rest_fed degrees rfl)
        (p.rest_fed fed passed)
      apply Carried.split p _ inner _ passed later
      · rw [p.gateway_reached fed, all, single, Nat.one_mul]
      · rw [joined, passed, Nat.mul_comm]

end Plain

end ProcessDiagram.Blocks
