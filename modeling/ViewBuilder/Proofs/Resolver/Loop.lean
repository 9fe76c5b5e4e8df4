import Mathlib.Logic.Function.Iterate
import ViewBuilder.Proofs.Resolver.Visit

/-!
# The search as a loop

A search can be taken turn by turn: the block on top of a stack is handled, and its children come in
its place. Whoever answers the lookups, also with ever new names, the loop is over after finitely
many turns, and no block beyond the depth limit ever waits.
-/

namespace ViewBuilder.Search

variable {search : Search} {given : Given}

/-! ## Turns -/

/-- Where the loop stands: it goes on with the blocks that wait, or it is over. -/
inductive Loop where
  | going (first : Bool) (stack : List Block) (progress : Progress)
  | ended (outcome : Except Failure Unit) (progress : Progress)

namespace Loop

def start (content : Text) (before : Progress) : Loop := .going true [⟨content, 0⟩] before

/-- The blocks that wait to be handled. -/
def pending : Loop → List Block
  | .going _ stack _ => stack
  | .ended _ _ => []

end Loop

/-- The references of a block. Given names stand in for those of the first one only. -/
def Given.handled (given : Given) (first : Bool) (block : Block) : List Reference :=
  if first then (given.references block.content).toList else block.references

/-- One turn of the loop. Nothing happens once it is over. -/
def turn (search : Search) (given : Given) : Loop → Loop
  | .ended outcome progress => .ended outcome progress
  | .going _ [] progress => .ended (.ok ()) progress
  | .going first (block :: rest) progress =>
    match search.visitAll block.depth (given.handled first block) progress with
    | (.error failure, progress) => .ended (.error failure) progress
    | (.ok blocks, progress) => .going false (blocks ++ rest) progress

section
variable {first : Bool} {block : Block} {rest : List Block} {progress after : Progress}

theorem turn_of_error {failure : Failure}
    (h : search.visitAll block.depth (given.handled first block) progress =
      (.error failure, after)) :
    search.turn given (.going first (block :: rest) progress) = .ended (.error failure) after := by
  rw [turn, h]

theorem turn_of_ok {blocks : List Block}
    (h : search.visitAll block.depth (given.handled first block) progress = (.ok blocks, after)) :
    search.turn given (.going first (block :: rest) progress) =
      .going false (blocks ++ rest) after := by
  rw [turn, h]

end

/-! ## The end of the loop -/

/-- A stack is worked off by finitely many turns, with the result of `drain`. The induction is on
what a turn leaves of the stack: any number of blocks in the place of one, all of them deeper. -/
theorem exists_turns_drain (search : Search) (given : Given) (stack : List Block)
    (progress : Progress) :
    ∃ turns, (search.turn given)^[turns] (.going false stack progress) =
      .ended (search.drain stack progress).1 (search.drain stack progress).2 := by
  induction stack using search.leaves_wellFounded.induction generalizing progress with
  | h stack ih =>
    cases stack with
    | nil =>
      rw [drain_nil]
      exact ⟨1, rfl⟩
    | cons block rest =>
      rw [drain_cons]
      rcases hvisit : search.visit block progress with ⟨failure | blocks, after⟩
      · exact ⟨1, turn_of_error hvisit⟩
      · have hturn : search.turn given (.going false (block :: rest) progress) =
            .going false (blocks ++ rest) after := turn_of_ok hvisit
        obtain ⟨turns, hturns⟩ := ih (blocks ++ rest) (leaves_visit rest hvisit) after
        refine ⟨turns + 1, ?_⟩
        rw [Function.iterate_succ_apply, hturn]
        exact hturns

theorem exists_turns_resolve (search : Search) (content : Text) (given : Given)
    (before : Progress) :
    ∃ turns, (search.turn given)^[turns] (.start content before) =
      .ended (search.resolve content given before).1 (search.resolve content given before).2 := by
  rw [resolve]
  rcases hvisit : search.visitAll 0 (given.references content).toList before with
    ⟨failure | blocks, after⟩
  · exact ⟨1, turn_of_error hvisit⟩
  · obtain ⟨turns, hturns⟩ := search.exists_turns_drain given blocks after
    have hturn : search.turn given (.start content before) = .going false (blocks ++ []) after :=
      turn_of_ok hvisit
    refine ⟨turns + 1, ?_⟩
    rw [Function.iterate_succ_apply, hturn, List.append_nil]
    exact hturns

/-! ## The depth of what waits -/

/-- No block that waits is beyond the depth limit. -/
def Loop.Within (search : Search) (loop : Loop) : Prop :=
  ∀ block ∈ loop.pending, block.depth ≤ search.config.maxResolveDepth

theorem Loop.Within.turn {loop : Loop} (h : loop.Within search) :
    (search.turn given loop).Within search := by
  cases loop with
  | ended outcome progress => exact nofun
  | going first stack progress =>
    cases stack with
    | nil =>
      rw [Search.turn]
      exact fun block hmem => absurd hmem List.not_mem_nil
    | cons block rest =>
      rcases hvisit : search.visitAll block.depth (given.handled first block) progress with
        ⟨failure | blocks, after⟩
      · rw [turn_of_error hvisit]
        exact fun block hmem => absurd hmem List.not_mem_nil
      · rw [turn_of_ok hvisit]
        intro waiting hmem
        rcases List.mem_append.1 hmem with hchild | hrest
        · exact (visitAll_depth hvisit waiting hchild).2
        · exact h waiting (List.mem_cons_of_mem _ hrest)

theorem within_iterate_turn (search : Search) (content : Text) (given : Given) (before : Progress)
    (turns : Nat) : ((search.turn given)^[turns] (.start content before)).Within search := by
  induction turns with
  | zero =>
    intro block hmem
    obtain rfl := List.mem_singleton.1 hmem
    exact Nat.zero_le _
  | succ turns ih =>
    rw [Function.iterate_succ_apply']
    exact ih.turn

/-- Every search is over after finitely many turns, with the result of `resolve`, and whatever waits
at any time to be handled is within the depth limit. -/
theorem loop_ends_within_limit (search : Search) (content : Text) (given : Given)
    (before : Progress) :
    (∃ turns, (search.turn given)^[turns] (.start content before) =
      .ended (search.resolve content given before).1 (search.resolve content given before).2) ∧
    ∀ turns, ∀ block ∈ ((search.turn given)^[turns] (.start content before)).pending,
      block.depth ≤ search.config.maxResolveDepth :=
  ⟨search.exists_turns_resolve content given before,
    search.within_iterate_turn content given before⟩

/-- Knows every name, and refers to a longer one. -/
def endless : AliasSource := fun _ name _ => some ⟨"$this->loadTemplate('" ++ name ++ "x')", []⟩

/-- The search of ever new names goes as deep as it may. -/
example : ∃ progress, ((Search.mk { langPrefix := "COM_X", maxResolveDepth := 2 } endless
    "v").turn {})^[3] (.start "$this->loadTemplate('t')" ⟨.empty, false, []⟩) =
      .ended (.error (.depthExceeded "builder.template_data.admin.v.txx" 3 2)) progress :=
  ⟨_, by cbv⟩

end ViewBuilder.Search
