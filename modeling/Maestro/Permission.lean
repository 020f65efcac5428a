import Mathlib.Data.List.Basic
import Mathlib.Tactic.Tauto

/-! The permission overlay: vendor and administrator flags, then the user's rules by
effect, then the vendor's default. -/
namespace Maestro.Permission

abbrev DateTime := Int

inductive PermissionEffect where | allow | deny
  deriving DecidableEq, Repr

inductive AgentKind where | codex | claude | agy | fake
  deriving DecidableEq, Repr

inductive PermissionRuleScope where
  | request (id : Nat)
  | session (id : Nat)
  | project (id : Nat)
  | cli (agent : AgentKind)
  | global
  deriving DecidableEq, Repr

structure PermissionRuleMatcher where
  toolName : Option String
  commandRegex : Option String
  canonicalPathPrefix : Option String
  deriving DecidableEq, Repr

structure PermissionRule where
  id : String
  effect : PermissionEffect
  scope : PermissionRuleScope
  matcher : PermissionRuleMatcher
  expiresAt : Option DateTime
  deriving DecidableEq, Repr

structure PermissionRequestContext where
  requestId : Nat
  sessionId : Nat
  projectId : Nat
  agent : AgentKind
  toolName : Option String
  command : Option String
  canonicalPaths : List String
  deriving DecidableEq, Repr

inductive VendorDefaultDecision where | allow | deny | ask
  deriving DecidableEq, Repr

structure VendorPermissionPolicy where
  adminOrVendorDenied : Bool
  explicitlyAsks : Bool
  defaultDecision : VendorDefaultDecision
  deriving DecidableEq, Repr

inductive PermissionEvaluationSource where
  | vendorOrAdminDeny
  | maestroRule (id : String)
  | vendorExplicitAsk
  | vendorDefault
  | guiPrompt
  deriving DecidableEq, Repr

structure PermissionEvaluation where
  effect : Option PermissionEffect
  source : PermissionEvaluationSource
  deriving DecidableEq, Repr

/-! Paths are compared by their components. -/

inductive Component where
  | rootDir
  | curDir
  | name (text : List Char)
  deriving DecidableEq, Repr

def segments : List Char → List (List Char)
  | [] => [[]]
  | '/' :: rest => [] :: segments rest
  | c :: rest =>
      match segments rest with
      | [] => [[c]]
      | first :: more => (c :: first) :: more

/-- Empty parts count only as the root, and a dot only at the start of a relative path. -/
def components (path : String) : List Component :=
  let named (parts : List (List Char)) : List Component :=
    (parts.filter fun part => part ≠ [] ∧ part ≠ ['.']).map .name
  match segments path.toList with
  | [] => []
  | first :: rest =>
      if first = [] then (if rest = [] then [] else .rootDir :: named rest)
      else if first = ['.'] then .curDir :: named rest
      else named (first :: rest)

def startsWith (path base : String) : Bool := (components base).isPrefixOf (components path)

example : startsWith "/workspace/repo/src" "/workspace//repo/" = true := by decide
example : startsWith "/workspace/repository" "/workspace/repo" = false := by decide

namespace PermissionRuleScope

def specificity : PermissionRuleScope → Nat
  | .request _ => 5
  | .session _ => 4
  | .project _ => 3
  | .cli _ => 2
  | .global => 1

def Covers (scope : PermissionRuleScope) (request : PermissionRequestContext) : Bool :=
  match scope with
  | .request id => id == request.requestId
  | .session id => id == request.sessionId
  | .project id => id == request.projectId
  | .cli agent => agent == request.agent
  | .global => true

end PermissionRuleScope

section Evaluation

-- The regex crate: the compiled pattern, unless it is invalid.
variable (regex : String → Option (String → Bool))

def toolMatches (matcher : PermissionRuleMatcher) (request : PermissionRequestContext) : Bool :=
  match matcher.toolName with
  | some expected => request.toolName == some expected
  | none => true

def commandMatches (matcher : PermissionRuleMatcher) (request : PermissionRequestContext) : Bool :=
  match matcher.commandRegex with
  | none => true
  | some pattern =>
      match request.command with
      | none => false
      | some command =>
          match regex pattern with
          | none => false
          | some isMatch => isMatch command

def pathsMatch (matcher : PermissionRuleMatcher) (request : PermissionRequestContext)
    (effect : PermissionEffect) : Bool :=
  match matcher.canonicalPathPrefix with
  | none => true
  | some base =>
      if request.canonicalPaths = [] then false
      else
        match effect with
        | .allow => request.canonicalPaths.all fun path => startsWith path base
        | .deny => request.canonicalPaths.any fun path => startsWith path base

def matcherMatches (matcher : PermissionRuleMatcher) (request : PermissionRequestContext)
    (effect : PermissionEffect) : Bool :=
  toolMatches matcher request && commandMatches regex matcher request &&
    pathsMatch matcher request effect

def maxByKey {α : Type} (key : α → Nat) : List α → Option α
  | [] => none
  | x :: rest =>
      match maxByKey key rest with
      | none => some x
      | some best => if key x ≤ key best then some best else some x

def unexpired (rule : PermissionRule) (now : DateTime) : Bool :=
  rule.expiresAt.all fun expiresAt => expiresAt > now

def bestMatchingRule (request : PermissionRequestContext) (rules : List PermissionRule)
    (now : DateTime) (effect : PermissionEffect) : Option PermissionRule :=
  maxByKey (fun rule => rule.scope.specificity)
    (rules.filter fun rule => rule.effect == effect && unexpired rule now &&
      rule.scope.Covers request && matcherMatches regex rule.matcher request effect)

def evaluatePermission (request : PermissionRequestContext) (vendor : VendorPermissionPolicy)
    (rules : List PermissionRule) (now : DateTime) : PermissionEvaluation :=
  if vendor.adminOrVendorDenied then ⟨some .deny, .vendorOrAdminDeny⟩
  else
    match bestMatchingRule regex request rules now .deny with
    | some rule => ⟨some .deny, .maestroRule rule.id⟩
    | none =>
      if vendor.explicitlyAsks then ⟨none, .vendorExplicitAsk⟩
      else
        match bestMatchingRule regex request rules now .allow with
        | some rule => ⟨some .allow, .maestroRule rule.id⟩
        | none =>
          match vendor.defaultDecision with
          | .allow => ⟨some .allow, .vendorDefault⟩
          | .deny => ⟨some .deny, .vendorDefault⟩
          | .ask => ⟨none, .guiPrompt⟩

end Evaluation

section Best
variable {α : Type} {key : α → Nat} {l l' : List α} {best : α}

theorem maxByKeyNone : maxByKey key l = none ↔ l = [] := by
  cases l with
  | nil => simp [maxByKey]
  | cons x rest =>
    simp only [maxByKey, reduceCtorEq, iff_false]
    split
    · simp
    · split <;> simp

theorem maxByKeySpec (h : maxByKey key l = some best) : best ∈ l ∧ ∀ x ∈ l, key x ≤ key best := by
  induction l generalizing best with
  | nil => cases h
  | cons x rest ih =>
    simp only [maxByKey] at h
    split at h
    · rename_i empty
      cases Option.some.inj h
      rw [maxByKeyNone.mp empty]
      simp
    · rename_i other found
      obtain ⟨member, greatest⟩ := ih found
      split at h
      · rename_i less
        cases Option.some.inj h
        refine ⟨List.mem_cons_of_mem _ member, fun y present => ?_⟩
        rcases List.mem_cons.mp present with rfl | old
        · exact less
        · exact greatest y old
      · rename_i more
        cases Option.some.inj h
        refine ⟨List.mem_cons_self, fun y present => ?_⟩
        rcases List.mem_cons.mp present with rfl | old
        · exact Nat.le_refl _
        · exact Nat.le_trans (greatest y old) (Nat.le_of_lt (Nat.lt_of_not_le more))

end Best

section Rules
variable {regex : String → Option (String → Bool)} {request : PermissionRequestContext}
  {vendor : VendorPermissionPolicy} {rules rules' : List PermissionRule} {now : DateTime}
  {effect : PermissionEffect} {rule : PermissionRule}

def PermissionRule.Matches (regex : String → Option (String → Bool)) (request : PermissionRequestContext)
    (now : DateTime) (rule : PermissionRule) : Prop :=
  unexpired rule now = true ∧ rule.scope.Covers request = true ∧
    matcherMatches regex rule.matcher request rule.effect = true
instance (regex request now) (rule : PermissionRule) : Decidable (rule.Matches regex request now) :=
  inferInstanceAs (Decidable (_ ∧ _))

theorem bestNone : bestMatchingRule regex request rules now effect = none ↔
    ∀ rule ∈ rules, rule.effect = effect → ¬ rule.Matches regex request now := by
  unfold bestMatchingRule
  rw [maxByKeyNone, List.filter_eq_nil_iff]
  refine forall₂_congr fun rule _ => ?_
  simp only [Bool.and_eq_true, beq_iff_eq, PermissionRule.Matches]
  constructor
  · rintro other rfl ⟨fresh, covers, matched⟩
    exact other ⟨⟨⟨rfl, fresh⟩, covers⟩, matched⟩
  · rintro other ⟨⟨⟨rfl, fresh⟩, covers⟩, matched⟩
    exact other rfl ⟨fresh, covers, matched⟩

theorem bestSome (h : bestMatchingRule regex request rules now effect = some rule) :
    rule ∈ rules ∧ rule.effect = effect ∧ rule.Matches regex request now ∧
      ∀ other ∈ rules, other.effect = effect → other.Matches regex request now →
        other.scope.specificity ≤ rule.scope.specificity := by
  obtain ⟨member, greatest⟩ := maxByKeySpec h
  simp only [List.mem_filter, Bool.and_eq_true, beq_iff_eq] at member greatest
  obtain ⟨present, ⟨⟨rfl, fresh⟩, covers⟩, matched⟩ := member
  refine ⟨present, rfl, ⟨fresh, covers, matched⟩, ?_⟩
  rintro other here same ⟨fresh', covers', matched'⟩
  exact greatest other ⟨here, ⟨⟨same, fresh'⟩, covers'⟩, same ▸ matched'⟩

theorem bestIgnores {before after : List PermissionRule} (other : rule.effect ≠ effect) :
    bestMatchingRule regex request (before ++ rule :: after) now effect =
      bestMatchingRule regex request (before ++ after) now effect := by
  simp [bestMatchingRule, other]

theorem bestSameNone (same : ∀ rule, rule.Matches regex request now → (rule ∈ rules ↔ rule ∈ rules')) :
    bestMatchingRule regex request rules now effect = none ↔
      bestMatchingRule regex request rules' now effect = none := by
  rw [bestNone, bestNone]
  constructor
  · exact fun none rule member here applies => none rule ((same rule applies).mpr member) here applies
  · exact fun none rule member here applies => none rule ((same rule applies).mp member) here applies

theorem effectSame (same : ∀ rule, rule.Matches regex request now → (rule ∈ rules ↔ rule ∈ rules')) :
    (evaluatePermission regex request vendor rules now).effect =
      (evaluatePermission regex request vendor rules' now).effect := by
  have deny : bestMatchingRule regex request rules now .deny = none ↔
      bestMatchingRule regex request rules' now .deny = none := bestSameNone same
  have allow : bestMatchingRule regex request rules now .allow = none ↔
      bestMatchingRule regex request rules' now .allow = none := bestSameNone same
  unfold evaluatePermission
  cases vendor.adminOrVendorDenied with
  | true => rfl
  | false =>
    cases denied : bestMatchingRule regex request rules now .deny with
    | some rule =>
      cases denied' : bestMatchingRule regex request rules' now .deny with
      | some rule' => rfl
      | none => cases denied.symm.trans (deny.mpr denied')
    | none =>
      rw [deny.mp denied]
      cases vendor.explicitlyAsks with
      | true => rfl
      | false =>
        cases allowed : bestMatchingRule regex request rules now .allow with
        | some rule =>
          cases allowed' : bestMatchingRule regex request rules' now .allow with
          | some rule' => rfl
          | none => cases allowed.symm.trans (allow.mpr allowed')
        | none =>
          rw [allow.mp allowed]

def Withheld (evaluation : PermissionEvaluation) : Prop :=
  evaluation.source = .vendorOrAdminDeny ∨ evaluation.source = .vendorExplicitAsk ∨
    (evaluation.effect = some .deny ∧ ∃ id, evaluation.source = .maestroRule id)

theorem allowOnly (allowed : (evaluatePermission regex request vendor rules now).effect = some .allow) :
    vendor.adminOrVendorDenied = false ∧ vendor.explicitlyAsks = false ∧
      ∀ rule ∈ rules, rule.effect = .deny → ¬ rule.Matches regex request now := by
  unfold evaluatePermission at allowed
  split at allowed
  · cases allowed
  · rename_i undenied
    split at allowed
    · cases allowed
    · rename_i unmatched
      split at allowed
      · cases allowed
      · rename_i silent
        exact ⟨eq_false_of_ne_true undenied, eq_false_of_ne_true silent, bestNone.mp unmatched⟩

theorem denyAdded (deny : rule.effect = .deny) (added : (rule :: rules).Perm rules')
    (allowed : (evaluatePermission regex request vendor rules' now).effect = some .allow) :
    (evaluatePermission regex request vendor rules now).effect = some .allow := by
  have unmatched := (allowOnly allowed).2.2
  have spared : ¬ rule.Matches regex request now :=
    unmatched rule (added.subset List.mem_cons_self) deny
  rw [← allowed]
  refine effectSame fun other applies => ?_
  rw [← added.mem_iff, List.mem_cons]
  constructor
  · exact .inr
  · rintro (rfl | member)
    · exact absurd applies spared
    · exact member

theorem allowAdded {before after : List PermissionRule} (allow : rule.effect = .allow)
    (withheld : Withheld (evaluatePermission regex request vendor (before ++ after) now)) :
    evaluatePermission regex request vendor (before ++ rule :: after) now =
      evaluatePermission regex request vendor (before ++ after) now := by
  have denies : bestMatchingRule regex request (before ++ rule :: after) now .deny =
      bestMatchingRule regex request (before ++ after) now .deny := bestIgnores (by simp [allow])
  unfold evaluatePermission at withheld ⊢
  rw [denies]
  split
  · rfl
  · rename_i undenied
    rw [if_neg undenied] at withheld
    cases denied : bestMatchingRule regex request (before ++ after) now .deny with
    | some best => rfl
    | none =>
      simp only [denied] at withheld
      split at withheld
      · rename_i asks
        simp only [asks, if_true]
      · -- What the allow rules and the default decide is not withheld.
        exfalso
        revert withheld
        cases bestMatchingRule regex request (before ++ after) now .allow with
        | some best => simp [Withheld]
        | none => cases vendor.defaultDecision <;> simp [Withheld]

theorem reportedRule {id}
    (reported : (evaluatePermission regex request vendor rules now).source = .maestroRule id) :
    ∃ rule ∈ rules, rule.id = id ∧ rule.Matches regex request now ∧
      (evaluatePermission regex request vendor rules now).effect = some rule.effect ∧
      ∀ other ∈ rules, other.effect = rule.effect → other.Matches regex request now →
        other.scope.specificity ≤ rule.scope.specificity := by
  unfold evaluatePermission at reported ⊢
  split at reported
  · cases reported
  · rename_i undenied
    rw [if_neg undenied]
    cases denied : bestMatchingRule regex request rules now .deny with
    | some rule =>
      simp only [denied] at reported
      obtain ⟨member, effect, applies, greatest⟩ := bestSome denied
      cases reported
      exact ⟨rule, member, rfl, applies, by rw [effect], fun other here same =>
        greatest other here (same.trans effect)⟩
    | none =>
      simp only [denied] at reported
      split at reported
      · cases reported
      · rename_i silent
        cases allowed : bestMatchingRule regex request rules now .allow with
        | some rule =>
          simp only [allowed] at reported
          obtain ⟨member, effect, applies, greatest⟩ := bestSome allowed
          cases reported
          exact ⟨rule, member, rfl, applies, by simp [silent, effect], fun other here same =>
            greatest other here (same.trans effect)⟩
        | none =>
          simp only [allowed] at reported
          split at reported <;> cases reported

def PermissionRule.anywhere (rule : PermissionRule) : PermissionRule :=
  { rule with matcher := { rule.matcher with canonicalPathPrefix := none } }

theorem prefixMatches {base} (constrained : rule.matcher.canonicalPathPrefix = some base) :
    rule.Matches regex request now ↔ rule.anywhere.Matches regex request now ∧
      (rule.effect = .allow → request.canonicalPaths ≠ [] ∧
        ∀ path ∈ request.canonicalPaths, startsWith path base = true) ∧
      (rule.effect = .deny → ∃ path ∈ request.canonicalPaths, startsWith path base = true) := by
  have paths : pathsMatch rule.matcher request rule.effect = true ↔
      (rule.effect = .allow → request.canonicalPaths ≠ [] ∧
        ∀ path ∈ request.canonicalPaths, startsWith path base = true) ∧
      (rule.effect = .deny → ∃ path ∈ request.canonicalPaths, startsWith path base = true) := by
    unfold pathsMatch
    rw [constrained]
    by_cases empty : request.canonicalPaths = []
    · cases rule.effect <;> simp [empty]
    · cases rule.effect <;> simp [empty]
  unfold PermissionRule.Matches matcherMatches PermissionRule.anywhere
  simp only [Bool.and_eq_true, paths]
  have free : ∀ effect, pathsMatch { rule.matcher with canonicalPathPrefix := none } request effect =
      true := fun _ => rfl
  simp only [free, and_true, toolMatches, commandMatches, unexpired]
  tauto

structure PermissionSafe (regex : String → Option (String → Bool)) (request : PermissionRequestContext)
    (vendor : VendorPermissionPolicy) (rules : List PermissionRule) (now : DateTime) : Prop where
  allowOnly : (evaluatePermission regex request vendor rules now).effect = some .allow →
    vendor.adminOrVendorDenied = false ∧ vendor.explicitlyAsks = false ∧
      ∀ rule ∈ rules, rule.effect = .deny → ¬ rule.Matches regex request now
  denyAdded : ∀ rule rules', rule.effect = .deny → (rule :: rules).Perm rules' →
    (evaluatePermission regex request vendor rules now).effect ≠ some .allow →
    (evaluatePermission regex request vendor rules' now).effect ≠ some .allow
  allowAdded : ∀ rule before after, rule.effect = .allow → rules = before ++ after →
    Withheld (evaluatePermission regex request vendor rules now) →
    evaluatePermission regex request vendor (before ++ rule :: after) now =
      evaluatePermission regex request vendor rules now
  permuted : ∀ rules', rules.Perm rules' →
    (evaluatePermission regex request vendor rules' now).effect =
      (evaluatePermission regex request vendor rules now).effect
  removed : ∀ rules', rules'.Sublist rules → (∀ rule ∈ rules, rule ∉ rules' →
      ¬ rule.Matches regex request now) →
    (evaluatePermission regex request vendor rules' now).effect =
      (evaluatePermission regex request vendor rules now).effect
  reported : ∀ id, (evaluatePermission regex request vendor rules now).source = .maestroRule id →
    ∃ rule ∈ rules, rule.id = id ∧ rule.Matches regex request now ∧
      (evaluatePermission regex request vendor rules now).effect = some rule.effect ∧
      ∀ other ∈ rules, other.effect = rule.effect → other.Matches regex request now →
        other.scope.specificity ≤ rule.scope.specificity
  prefixes : ∀ (rule : PermissionRule) (base : String), rule.matcher.canonicalPathPrefix = some base →
    (rule.Matches regex request now ↔ rule.anywhere.Matches regex request now ∧
      (rule.effect = .allow → request.canonicalPaths ≠ [] ∧
        ∀ path ∈ request.canonicalPaths, startsWith path base = true) ∧
      (rule.effect = .deny → ∃ path ∈ request.canonicalPaths, startsWith path base = true))

end Rules

theorem permissionSafe (regex : String → Option (String → Bool)) (request : PermissionRequestContext)
    (vendor : VendorPermissionPolicy) (rules : List PermissionRule) (now : DateTime) :
    PermissionSafe regex request vendor rules now where
  allowOnly := allowOnly
  denyAdded := fun _ _ deny added withheld allowed => withheld (denyAdded deny added allowed)
  allowAdded := by
    rintro rule before after allow rfl withheld
    exact allowAdded allow withheld
  permuted := fun _ permuted => effectSame fun _ _ => permuted.symm.mem_iff
  removed := by
    intro rules' kept spared
    refine effectSame fun rule applies => ⟨fun member => kept.subset member, fun member => ?_⟩
    by_contra gone
    exact spared rule member gone applies
  reported := fun _ => reportedRule
  prefixes := fun _ _ => prefixMatches

end Maestro.Permission
