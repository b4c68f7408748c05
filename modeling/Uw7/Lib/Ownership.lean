import Mathlib.Tactic.ByContra

namespace Uw7.Lib

/-!
# Exclusive ownership

Resources record the agent that owns them, and agents know the one resource they
use.  Both views stay in agreement when an agent takes a free resource, gives its
resource back, or goes on with it.
-/

open Option

variable {Resource Agent : Type}

def Owned (owner : Resource → Option Agent) (uses : Agent → Option Resource) : Prop :=
  ∀ resource agent, owner resource = some agent ↔ uses agent = some resource

namespace Owned

variable {owner owner' : Resource → Option Agent}
  {uses uses' : Agent → Option Resource} {resource : Resource} {agent : Agent}

section

variable (owned : Owned owner uses)
include owned

theorem exclusive {other : Agent} (first : uses agent = some resource)
    (second : uses other = some resource) : agent = other := by
  have isOwner := (owned resource agent).mpr first
  rw [(owned resource other).mpr second] at isOwner
  exact (some.inj isOwner).symm

theorem congr (sameOwner : ∀ resource, owner' resource = owner resource)
    (sameUse : ∀ agent, uses' agent = uses agent) : Owned owner' uses' := by
  intro resource agent
  rw [sameOwner, sameUse]
  exact owned resource agent

theorem acquire (free : owner resource = none) (idle : uses agent = none)
    (taken : owner' resource = some agent)
    (others : ∀ other, other ≠ resource → owner' other = owner other)
    (inUse : uses' agent = some resource)
    (rest : ∀ other, other ≠ agent → uses' other = uses other) : Owned owner' uses' := by
  intro other user
  by_cases isUser : user = agent
  · subst user
    by_cases same : other = resource
    · subst other
      exact ⟨fun _ => inUse, fun _ => taken⟩
    · rw [others other same, inUse]
      constructor
      · intro isOwner
        rw [owned other agent, idle] at isOwner
        cases isOwner
      · intro isSame
        exact absurd (some.inj isSame).symm same
  · rw [rest user isUser]
    by_cases same : other = resource
    · subst other
      rw [taken]
      constructor
      · intro isSame
        exact absurd (some.inj isSame).symm isUser
      · intro isUse
        rw [(owned resource user).mpr isUse] at free
        cases free
    · rw [others other same]
      exact owned other user

theorem release (used : uses agent = some resource)
    (freed : owner' resource = none)
    (others : ∀ other, other ≠ resource → owner' other = owner other) (idle : uses' agent = none)
    (rest : ∀ other, other ≠ agent → uses' other = uses other) : Owned owner' uses' := by
  intro other user
  by_cases isUser : user = agent
  · subst user
    rw [idle]
    by_cases same : other = resource
    · subst other
      simp [freed]
    · rw [others other same]
      constructor
      · intro isOwner
        rw [owned other agent, used] at isOwner
        exact absurd (some.inj isOwner).symm same
      · intro isNone
        cases isNone
  · rw [rest user isUser]
    by_cases same : other = resource
    · subst other
      rw [freed]
      constructor
      · intro isNone
        cases isNone
      · intro isUse
        exact absurd (owned.exclusive used isUse).symm isUser
    · rw [others other same]
      exact owned other user

end

end Owned

end Uw7.Lib
