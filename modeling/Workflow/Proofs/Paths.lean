import Workflow.Proofs.Allocation
import Workflow.Proofs.Clashes

/-!
Paths. Scopes and states grow from a root as a tree, in which each has an id of its own among those
of its scope, and a path that is the path of its scope with its id behind a separator. The id of a
scope never has a separator in it. As long as the ids of states have none, a path can be taken apart
in one way only, from its end, and no two scopes or states of a tree have the same. The id of a
state may have one, though, and then its path can be that of a state further down.
-/

namespace Workflow

/-- What has an id and a path: a scope or a state. -/
inductive Site where
  | scope (c : ScopeId)
  | state (s : StateId)
deriving DecidableEq

/-- What a site is called and where it is defined, which for a root is in no scope. -/
structure Address where
  id : String
  path : String
  parent : Option ScopeId

namespace Scope

variable {scope new : Scope} {id granted : String}

theorem toList_suffixed (id : String) (n : Nat) :
    (suffixed id n).toList = id.toList ++ '_' :: Nat.toDigits 10 n := by
  simp [suffixed, Nat.repr]

theorem separator_not_mem_digits (n : Nat) : '/' ∉ Nat.toDigits 10 n :=
  fun member => absurd (Nat.isDigit_of_mem_toDigits (by decide) (by decide) member) (by decide)

/-- A suffix brings no separator into an id. -/
theorem separator_not_mem_granted (ok : scope.allocate id = .ok (granted, new))
    (plain : '/' ∉ id.toList) : '/' ∉ granted.toList := by
  obtain ⟨-, ⟨-, rfl, -⟩ | ⟨n, -, -, rfl, -⟩⟩ := allocate_eq_ok.mp ok
  · exact plain
  · rw [toList_suffixed, List.mem_append, List.mem_cons, not_or, not_or]
    exact ⟨plain, by decide, separator_not_mem_digits n⟩

theorem toList_childPath (scope : Scope) (id : String) :
    (scope.childPath id).toList = scope.path.toList ++ '/' :: id.toList := by
  simp [childPath]

/-- What stands behind the last separator, and what before it, is read off a text in one way. -/
theorem append_separator_inj {before before' id id' : List Char} (plain : '/' ∉ id)
    (plain' : '/' ∉ id') (same : before ++ '/' :: id = before' ++ '/' :: id') :
    before = before' ∧ id = id' := by
  have turned : id.reverse ++ '/' :: before.reverse = id'.reverse ++ '/' :: before'.reverse := by
    simpa using congrArg List.reverse same
  have last {text rest : List Char} (free : '/' ∉ text) :
      (text.reverse ++ '/' :: rest).takeWhile (· ≠ '/') = text.reverse := by
    have before : ∀ c ∈ text.reverse, decide (c ≠ '/') = true := by
      simpa using fun c member => ne_of_mem_of_not_mem member free
    rw [List.takeWhile_append_of_pos before]
    simp
  have ends : id.reverse = id'.reverse := by rw [← last plain, turned, last plain']
  obtain rfl := List.reverse_injective ends
  exact ⟨List.append_cancel_right same, rfl⟩

end Scope

namespace Workspace

variable {w v : Workspace} {x y : Site} {c d root : ScopeId}

def HasSite (w : Workspace) : Site → Prop
  | .scope c => w.HasScope c
  | .state s => w.HasState s

instance (w : Workspace) : (x : Site) → Decidable (w.HasSite x)
  | .scope c => inferInstanceAs (Decidable (w.HasScope c))
  | .state s => inferInstanceAs (Decidable (w.HasState s))

def address (w : Workspace) : Site → Address
  | .scope c => ⟨(w.scope c).id, (w.scope c).path, (w.scope c).parent⟩
  | .state s => ⟨(w.state s).id, (w.state s).path, some (w.state s).scope⟩

theorem path_eq_of_states {s t : StateId} {path : String} (one : (w.state s).path = path)
    (two : (w.state t).path = path) :
    (w.address (.state s)).path = (w.address (.state t)).path := one.trans two.symm

/-- Whether a site is in the tree that grows from a scope. -/
inductive Grows (w : Workspace) (root : ScopeId) : Site → Prop
  | root : w.HasScope root → Grows w root (.scope root)
  | child {x : Site} {c : ScopeId} : w.HasSite x → (w.address x).parent = some c →
      Grows w root (.scope c) → Grows w root x

/-- How the sites of a workspace are addressed: by ids that their scopes have given to each of them,
behind the paths of the scopes. -/
structure Housed (w : Workspace) : Prop where
  house : ∀ {x : Site} {c : ScopeId}, w.HasSite x → (w.address x).parent = some c →
    w.HasScope c ∧ (w.address x).id ∈ (w.scope c).taken ∧
      (w.address x).path = (w.scope c).childPath (w.address x).id
  unique : ∀ {x y : Site} {c : ScopeId}, w.HasSite x → w.HasSite y →
    (w.address x).parent = some c → (w.address y).parent = some c →
    (w.address x).id = (w.address y).id → x = y
  plain : ∀ {c : ScopeId}, w.HasScope c → '/' ∉ (w.scope c).id.toList

theorem Housed.toList_path (housed : w.Housed) (known : w.HasSite x)
    (parent : (w.address x).parent = some c) : (w.address x).path.toList =
      (w.scope c).path.toList ++ '/' :: (w.address x).id.toList := by
  rw [(housed.house known parent).2.2, Scope.toList_childPath]

/-- Paths get longer on the way down. -/
theorem Housed.length_lt (housed : w.Housed) (known : w.HasSite x)
    (parent : (w.address x).parent = some c) :
    (w.scope c).path.toList.length < (w.address x).path.toList.length := by
  rw [housed.toList_path known parent, List.length_append, List.length_cons]
  omega

theorem grows_nested {s t : StateId} (outer : w.HasScope root) (inner : w.HasScope c)
    (parent : (w.scope c).parent = some root) (known : w.HasState s) (known' : w.HasState t)
    (inside : (w.state s).scope = c) (beside : (w.state t).scope = root) :
    w.Grows root (.state s) ∧ w.Grows root (.state t) := by
  have top : w.Grows root (.scope root) := .root outer
  have within : w.Grows root (.scope c) := .child inner parent top
  exact ⟨.child known (congrArg some inside) within, .child known' (congrArg some beside) top⟩

namespace Grows

theorem hasSite (grows : w.Grows root x) : w.HasSite x := by
  cases grows with
  | root known | child known => exact known

theorem hasScope (grows : w.Grows root x) : w.HasScope root := by
  induction grows with
  | root known => exact known
  | child _ _ _ ih => exact ih

theorem length_le (housed : w.Housed) (grows : w.Grows root x) :
    (w.scope root).path.toList.length ≤ (w.address x).path.toList.length := by
  induction grows with
  | root => exact Nat.le_refl _
  | child known parent _ ih => exact Nat.le_trans ih (Nat.le_of_lt (housed.length_lt known parent))

/-- The root has a path of its own. -/
theorem eq_root (housed : w.Housed) (grows : w.Grows root x)
    (same : (w.address x).path = (w.scope root).path) : x = .scope root := by
  cases grows with
  | root => rfl
  | child known parent above =>
    have longer := Nat.lt_of_le_of_lt (above.length_le housed) (housed.length_lt known parent)
    rw [same] at longer
    exact absurd longer (Nat.lt_irrefl _)

/-- Where the ids have no separator, a path leads to one site of a tree. -/
theorem eq_of_path (housed : w.Housed) (one : w.Grows root x) (two : w.Grows root y)
    (plain : '/' ∉ (w.address x).id.toList) (plain' : '/' ∉ (w.address y).id.toList)
    (same : (w.address x).path = (w.address y).path) : x = y := by
  induction one generalizing y with
  | root => exact (two.eq_root housed same.symm).symm
  | @child x c known parent above ih =>
    cases two with
    | root known' => exact eq_root housed (.child known parent above) same
    | @child _ d known' parent' above' =>
      have written := congrArg String.toList same
      rw [housed.toList_path known parent, housed.toList_path known' parent'] at written
      obtain ⟨scopes, ids⟩ := Scope.append_separator_inj plain plain' written
      have up := ih above' (housed.plain above.hasSite) (housed.plain above'.hasSite)
        (String.toList_injective scopes)
      obtain rfl := Site.scope.inj up
      exact housed.unique known known' parent parent' (String.toList_injective ids)

end Grows

/-- Sites of one scope have different paths, whatever their ids. -/
theorem Housed.eq_of_siblings (housed : w.Housed) (known : w.HasSite x) (known' : w.HasSite y)
    (parent : (w.address x).parent = some c) (parent' : (w.address y).parent = some c)
    (same : (w.address x).path = (w.address y).path) : x = y := by
  refine housed.unique known known' parent parent' (String.toList_injective ?_)
  have written := congrArg String.toList same
  rw [housed.toList_path known parent, housed.toList_path known' parent'] at written
  exact (List.cons.inj (List.append_cancel_left written)).2

/-- Two sites of a tree that have the same path are in different scopes, and one of them is a state
with a separator in its id. -/
theorem Housed.clash (housed : w.Housed) (one : w.Grows root x) (two : w.Grows root y)
    (different : x ≠ y) (same : (w.address x).path = (w.address y).path) :
    (w.address x).parent ≠ (w.address y).parent ∧
      ∃ s, (x = .state s ∨ y = .state s) ∧ '/' ∈ (w.state s).id.toList := by
  constructor
  · intro sameParent
    cases one with
    | root => exact different (two.eq_root housed same.symm).symm
    | child known parent above =>
      cases two with
      | root => exact different (Grows.eq_root housed (.child known parent above) same)
      | child known' parent' =>
        exact different
          (housed.eq_of_siblings known known' (sameParent.trans parent') parent' same)
  · by_contra none
    have plain {z : Site} (grows : w.Grows root z) (either : z = x ∨ z = y) :
        '/' ∉ (w.address z).id.toList := by
      cases z with
      | scope c => exact housed.plain grows.hasSite
      | state s =>
        intro member
        exact none ⟨s, either.imp Eq.symm Eq.symm, member⟩
    exact different
      (one.eq_of_path housed two (plain one (.inl rfl)) (plain two (.inr rfl)) same)

end Workspace

/-- Whether an operation brings no separator into the id of a state. -/
def Operation.Plain : Operation → Prop
  | edit (.state _ id _ _ _) => '/' ∉ id.toList
  | _ => True

namespace Workspace

variable {w v : Workspace} {x y : Site} {c d : ScopeId} {op : Operation} {scope : Scope}
  {id granted : String}

/-- What becomes of the sites: those that there are stay where they are, and at most one comes in,
under an id that its scope has not given before. A scope has no separator in its id, and a state has
none if its definition was `plain`. -/
structure Settles (w v : Workspace) (plain : Prop) (new : Option Site) : Prop where
  kept : ∀ x, w.HasSite x → v.HasSite x ∧ v.address x = w.address x
  known : ∀ x, v.HasSite x → w.HasSite x ∨ x ∈ new
  house : ∀ x ∈ new, ∀ c, (v.address x).parent = some c → w.HasScope c ∧
    (v.address x).id ∉ (w.scope c).taken ∧ (v.address x).id ∈ (v.scope c).taken ∧
    (v.address x).path = (v.scope c).childPath (v.address x).id
  plain : ∀ x ∈ new, ((∃ c, x = .scope c) ∨ plain) → '/' ∉ (v.address x).id.toList

theorem hasSite_setScope : (w.setScope d scope).HasSite x ↔ w.HasSite x := by
  cases x with
  | scope c => simp [HasSite, HasScope, setScope]
  | state s => rfl

theorem address_setScope (place : scope.id = (w.scope d).id ∧ scope.path = (w.scope d).path ∧
    scope.parent = (w.scope d).parent) (x : Site) :
    (w.setScope d scope).address x = w.address x := by
  cases x with
  | state s => rfl
  | scope c =>
    simp only [address, scope_setScope]
    split
    · rename_i here
      rw [here.1, place.1, place.2.1, place.2.2]
    · rfl

theorem hasSite_push {new : Scope} :
    Workspace.HasSite { w with scopes := w.scopes.push new } x ↔
      w.HasSite x ∨ x = .scope ⟨w.scopes.size⟩ := by
  cases x with
  | scope c =>
    obtain ⟨i⟩ := c
    simp only [HasSite, HasScope, Array.size_push, Site.scope.injEq, ScopeId.mk.injEq]
    exact Nat.lt_succ_iff_lt_or_eq
  | state s => simp [HasSite, HasState]

theorem address_push (known : w.HasSite x) (new : Scope) :
    Workspace.address { w with scopes := w.scopes.push new } x = w.address x := by
  cases x with
  | state s => rfl
  | scope c =>
    simp only [address, scope_push]
    rw [if_neg]
    rintro rfl
    exact w.not_hasScope_next known

theorem hasSite_define {new : State} :
    (w.define d new).HasSite x ↔ w.HasSite x ∨ x = .state ⟨w.states.size⟩ := by
  cases x with
  | scope c => simp [HasSite, HasScope, define, setScope]
  | state s => simp [HasSite, hasState_define]

theorem address_define (known : w.HasSite x) (d : ScopeId) (new : State) :
    (w.define d new).address x = w.address x := by
  cases x with
  | scope c =>
    simp only [address, scope_define]
    split
    · rename_i here
      rw [here.1]
      rfl
    · rfl
  | state s => simp only [address, state_define_of_hasState known]

theorem settles_of_same (within : op.Within w) (scopes : (op.after w).scopes = w.scopes)
    (size : (op.after w).states.size = w.states.size) : w.Settles (op.after w) op.Plain none := by
  have once : Runs w [op] (op.after w) := .cons within (.nil _)
  constructor
  case kept =>
    intro x known
    cases x with
    | scope c =>
      simp only [HasSite, HasScope, address, scopes, scope_of_scopes scopes, and_true]
      exact known
    | state s =>
      obtain ⟨there, scope, id, path, -⟩ := once.identity_kept known
      simp only [address, scope, id, path]
      exact ⟨there, trivial⟩
  case known =>
    intro x known
    left
    cases x with
    | scope c => simpa only [HasSite, HasScope, scopes] using known
    | state s => simpa only [HasSite, HasState, size] using known
  case house | plain => simp

theorem Settles.refl (w : Workspace) (plain : Prop) : w.Settles w plain none :=
  ⟨fun _ known => ⟨known, rfl⟩, fun _ known => .inl known, by simp, by simp⟩

theorem settles_allocate (d : ScopeId) (id : String) :
    w.Settles ((Build.allocate d id).after w) True none := by
  cases allocated : (w.scope d).allocate id with
  | error fault =>
    rw [Build.after, Build.allocate_of_error allocated]
    exact .refl w True
  | ok grant =>
    have place := address_setScope (Scope.place_of_allocate allocated)
    rw [Build.after, Build.allocate_of_ok allocated]
    constructor
    case kept => exact fun x known => ⟨hasSite_setScope.mpr known, place x⟩
    case known => exact fun x known => .inl (hasSite_setScope.mp known)
    case house | plain => simp

/-- A site comes in under the id that its scope has granted. -/
theorem settles_granted {plain : Prop} {new : Site} (there : w.HasScope d)
    (ok : (w.scope d).allocate id = .ok (granted, scope))
    (sites : ∀ x, v.HasSite x ↔ (w.setScope d scope).HasSite x ∨ x = new)
    (kept : ∀ x, (w.setScope d scope).HasSite x → v.address x = (w.setScope d scope).address x)
    (taken : (v.scope d).taken = ((w.setScope d scope).scope d).taken)
    (address : v.address new = ⟨granted, ((w.setScope d scope).scope d).childPath granted, some d⟩)
    (free : ((∃ c, new = .scope c) ∨ plain) → '/' ∉ id.toList) :
    w.Settles v plain (some new) := by
  have here : (w.setScope d scope).scope d = scope :=
    (scope_setScope ..).trans (if_pos ⟨rfl, there⟩)
  have path : (v.scope d).path = ((w.setScope d scope).scope d).path :=
    congrArg Address.path (kept (.scope d) (hasSite_setScope.mpr there))
  obtain ⟨fresh, granting⟩ := Scope.taken_of_allocate ok
  constructor
  case kept =>
    intro x known
    have known : (w.setScope d scope).HasSite x := hasSite_setScope.mpr known
    have same := address_setScope (w := w) (Scope.place_of_allocate ok) x
    exact ⟨(sites x).mpr (.inl known), (kept x known).trans same⟩
  case known =>
    intro x known
    exact ((sites x).mp known).imp hasSite_setScope.mp fun last => congrArg some last.symm
  case house =>
    rintro _ ⟨⟩ c parent
    rw [address] at parent ⊢
    obtain rfl := Option.some.inj parent
    rw [taken, here, granting, Scope.childPath, Scope.childPath, path, here]
    exact ⟨there, fresh, List.mem_cons_self, rfl⟩
  case plain =>
    rintro _ ⟨⟩ either
    rw [address]
    exact Scope.separator_not_mem_granted ok (free either)

theorem settles_scope (id : String) {parent : Option ScopeId}
    (known : ∀ d ∈ parent, w.HasScope d) :
    ∃ new, w.Settles ((Build.scope id parent).after w) True new := by
  by_cases legal : id.isEmpty = false ∧ '/' ∉ id.toList
  · refine ⟨some (.scope ⟨w.scopes.size⟩), ?_⟩
    cases parent with
    | none =>
      simp only [Build.after, Build.scope_of_legal legal]
      constructor
      case kept => exact fun x known => ⟨hasSite_push.mpr (.inl known), address_push known _⟩
      case known =>
        exact fun x known => (hasSite_push.mp known).imp_right fun last => congrArg some last.symm
      case house =>
        rintro _ ⟨⟩ c parent
        simp [address, scope_push] at parent
      case plain =>
        rintro _ ⟨⟩ -
        simpa [address, scope_push] using legal.2
    | some d =>
      obtain ⟨granted, scope, ok⟩ := (w.scope d).exists_allocate legal.1
      obtain ⟨new, same, -, -, made, path, parent⟩ := Build.scope_of_ok legal ok
      have size : (w.setScope d scope).scopes.size = w.scopes.size := Array.size_setIfInBounds
      have there := known d rfl
      have other : d ≠ ⟨(w.setScope d scope).scopes.size⟩ := by
        intro last
        rw [last, size] at there
        exact w.not_hasScope_next there
      simp only [Build.after, made]
      rw [← size]
      refine settles_granted there ok (fun x => hasSite_push)
        (fun x known => address_push known new) ?_ ?_ fun _ => legal.2
      · rw [scope_push, if_neg other]
      · simp only [address, scope_push, if_pos, same, path, parent]
  · obtain ⟨fault, refused⟩ := Build.scope_of_illegal (w := w) legal parent
    rw [Build.after, refused]
    exact ⟨none, .refl w True⟩

theorem settles_state (there : w.HasScope d) (id : String) (name : Option String)
    (common : CommonFields) (description : Description) :
    ∃ new,
      w.Settles ((Build.state d id name common description).after w) ('/' ∉ id.toList) new := by
  cases allocated : (w.scope d).allocate id with
  | error fault =>
    rw [Build.after, Build.state_of_error allocated]
    exact ⟨none, .refl w _⟩
  | ok grant =>
    obtain ⟨granted, scope⟩ := grant
    obtain ⟨new, own, same, -, defined, -, -, path, -⟩ :=
      Build.state_of_ok allocated name common description
    have there' : (w.setScope d scope).HasScope d := by simpa [HasScope, setScope] using there
    refine ⟨some (.state ⟨(w.setScope d scope).states.size⟩), ?_⟩
    rw [defined]
    refine settles_granted there allocated (fun x => hasSite_define)
      (fun x known => address_define known d new) ?_ ?_ ?_
    · rw [scope_define, if_pos ⟨rfl, there'⟩]
      rfl
    · simp only [address, state_define, if_pos, own, same, path]
    · rintro (⟨c, ⟨⟩⟩ | plain)
      exact plain

/-- Whatever is done, sites stay where they are, and at most one comes in. -/
theorem settles_after (within : op.Within w) : ∃ new, w.Settles (op.after w) op.Plain new := by
  have idle (scopes : (op.after w).scopes = w.scopes)
      (size : (op.after w).states.size = w.states.size) :
      ∃ new, w.Settles (op.after w) op.Plain new := ⟨none, settles_of_same within scopes size⟩
  cases op with
  | inquiry q =>
    have asked : w.Asked (q.after w) := asked_inquiry within
    exact idle asked.scopes (congrArg _ asked.states)
  | edit e =>
    cases e with
    | allocate d id => exact ⟨none, settles_allocate d id⟩
    | scope id parent => exact settles_scope id within
    | state d id name common description => exact settles_state within id name common description
    | rename | wire | stop | retry | handle | rule | otherwise | branches | iterator | next
    | finish => exact idle (frame_edit rfl w).scopes (frame_edit rfl w).size

theorem Settles.grows {plain : Prop} {new : Option Site} (settles : w.Settles v plain new)
    {root : ScopeId} (grows : w.Grows root x) : v.Grows root x := by
  induction grows with
  | root known => exact .root (settles.kept (.scope root) known).1
  | @child x c known parent _ ih =>
    obtain ⟨there, same⟩ := settles.kept x known
    exact .child there (same ▸ parent) ih

/-- Where each site grows from a root, so does the one that comes in. -/
theorem Settles.rooted {plain : Prop} {new : Option Site} (settles : w.Settles v plain new)
    (rooted : ∀ x, w.HasSite x → ∃ root, (w.scope root).parent = none ∧ w.Grows root x) :
    ∀ x, v.HasSite x → ∃ root, (v.scope root).parent = none ∧ v.Grows root x := by
  have old {x : Site} (known : w.HasSite x) :
      ∃ root, (v.scope root).parent = none ∧ v.Grows root x := by
    obtain ⟨root, none, grows⟩ := rooted x known
    have same := congrArg Address.parent (settles.kept (.scope root) grows.hasScope).2
    exact ⟨root, Eq.trans same none, settles.grows grows⟩
  intro x known
  rcases settles.known x known with known' | fresh
  · exact old known'
  cases parent : (v.address x).parent with
  | none =>
    cases x with
    | scope c => exact ⟨c, parent, .root known⟩
    | state s => cases parent
  | some c =>
    obtain ⟨there, -⟩ := settles.house x fresh c parent
    obtain ⟨root, none, grows⟩ := old (x := .scope c) there
    exact ⟨root, none, .child known parent grows⟩

theorem Settles.housed {plain : Prop} {new : Option Site} (settles : w.Settles v plain new)
    (taken : ∀ c, (w.scope c).taken ⊆ (v.scope c).taken) (housed : w.Housed) : v.Housed := by
  have scope_kept {c : ScopeId} (known : w.HasScope c) :
      v.HasScope c ∧ (v.scope c).path = (w.scope c).path := by
    obtain ⟨there, same⟩ := settles.kept (.scope c) known
    exact ⟨there, congrArg Address.path same⟩
  constructor
  case house =>
    intro x c known parent
    rcases settles.known x known with old | fresh
    · obtain ⟨-, same⟩ := settles.kept x old
      rw [same] at parent ⊢
      obtain ⟨there, member, path⟩ := housed.house old parent
      refine ⟨(scope_kept there).1, taken c member, ?_⟩
      rw [Scope.childPath, (scope_kept there).2]
      exact path
    · obtain ⟨there, -, member, path⟩ := settles.house x fresh c parent
      exact ⟨(scope_kept there).1, member, path⟩
  case unique =>
    intro x y c known known' parent parent' same
    rcases settles.known x known with old | fresh <;>
      rcases settles.known y known' with old' | fresh'
    · rw [(settles.kept x old).2] at parent same
      rw [(settles.kept y old').2] at parent' same
      exact housed.unique old old' parent parent' same
    · obtain ⟨-, free, -⟩ := settles.house y fresh' c parent'
      rw [(settles.kept x old).2] at parent same
      exact absurd (same ▸ (housed.house old parent).2.1) free
    · obtain ⟨-, free, -⟩ := settles.house x fresh c parent
      rw [(settles.kept y old').2] at parent' same
      exact absurd (same ▸ (housed.house old' parent').2.1) free
    · exact Option.some.inj (fresh.symm.trans fresh')
  case plain =>
    intro c known
    rcases settles.known (.scope c) known with old | fresh
    · have same := congrArg Address.id (settles.kept (.scope c) old).2
      change (v.scope c).id = (w.scope c).id at same
      rw [same]
      exact housed.plain old
    · exact settles.plain _ fresh (.inl ⟨c, rfl⟩)

end Workspace

namespace Runs

variable {w : Workspace} {ops : List Operation} {g : GraphId}

theorem housed (runs : Runs {} ops w) : w.Housed := by
  refine runs.keeps ?_ (by constructor <;> (rintro (c | s) <;> intros <;> contradiction))
  intro v op _ within held
  obtain ⟨new, settles⟩ := Workspace.settles_after within
  exact settles.housed (fun c => (Workspace.allocates_after within c).taken_subset) held

/-- Ids have no separator if none is brought in. -/
theorem plain (runs : Runs {} ops w) (each : ∀ op ∈ ops, op.Plain) {x : Site}
    (known : w.HasSite x) : '/' ∉ (w.address x).id.toList := by
  revert x
  refine runs.keeps (P := fun v => ∀ {x}, v.HasSite x → '/' ∉ (v.address x).id.toList) ?_ ?_
  · intro v op member within held x known
    obtain ⟨new, settles⟩ := Workspace.settles_after within
    rcases settles.known x known with old | fresh
    · rw [(settles.kept x old).2]
      exact held old
    · exact settles.plain x fresh (.inr (each op member))
  · rintro (c | s) known <;> cases known

/-- Every site grows from a root. -/
theorem rooted (runs : Runs {} ops w) {x : Site} (known : w.HasSite x) :
    ∃ root, (w.scope root).parent = none ∧ w.Grows root x := by
  refine runs.keeps (P := fun v => ∀ x, v.HasSite x →
    ∃ root, (v.scope root).parent = none ∧ v.Grows root x) ?_ ?_ x known
  · intro v op _ within held
    obtain ⟨new, settles⟩ := Workspace.settles_after within
    exact settles.rooted held
  · rintro (c | s) known <;> cases known

/-- What paths tell apart. Every scope and every state is in the tree of a root. Two of a tree have
different paths, unless one of them is a state with a separator in its id and they are in different
scopes. The same holds of the two states of a tree for which a graph is refused as they clash over a
name. As long as no state is defined with a separator in its id, all paths of a tree are
different. -/
theorem paths_identify (runs : Runs {} ops w) :
    (∀ x, w.HasSite x → ∃ root, (w.scope root).parent = none ∧ w.Grows root x) ∧
      (∀ root x y, w.Grows root x → w.Grows root y → x ≠ y →
        (w.address x).path = (w.address y).path →
        (w.address x).parent ≠ (w.address y).parent ∧
          ∃ s, (x = .state s ∨ y = .state s) ∧ '/' ∈ (w.state s).id.toList) ∧
      (∀ g, w.HasGraph g → (w.graph g).compiled = none → ∀ name first second label w',
        Build.compiled g w = .error (.duplicateName name first second label) w' →
        ∃ s t, w.Clash name s t ∧ (w.state s).path = first ∧ (w.state t).path = second ∧
          ∀ root, w.Grows root (.state s) → w.Grows root (.state t) → first = second →
            (w.state s).scope ≠ (w.state t).scope ∧
              ('/' ∈ (w.state s).id.toList ∨ '/' ∈ (w.state t).id.toList)) ∧
      ((∀ op ∈ ops, op.Plain) → ∀ root x y, w.Grows root x → w.Grows root y → x ≠ y →
        (w.address x).path ≠ (w.address y).path) := by
  refine ⟨fun x => runs.rooted, fun root x y => runs.housed.clash, ?_, ?_⟩
  · intro g known fresh name first second label w' refused
    obtain ⟨refused, -⟩ := Build.compiled_eq_error.mp refused
    rw [Workspace.compiled_of_fresh fresh] at refused
    obtain ⟨s, t, clash, rfl, rfl⟩ :=
      Workspace.justifies_compile runs.indexed runs.closed (runs.hasState_start known) refused
    refine ⟨s, t, clash, rfl, rfl, ?_⟩
    intro root one two same
    have different : Site.state s ≠ .state t := fun same => clash.1 (Site.state.inj same)
    obtain ⟨apart, u, either, member⟩ := runs.housed.clash one two different same
    refine ⟨fun same => apart (congrArg some same), ?_⟩
    rcases either with here | here
    · obtain rfl := Site.state.inj here
      exact .inl member
    · obtain rfl := Site.state.inj here
      exact .inr member
  · intro each root x y one two different same
    exact different (one.eq_of_path runs.housed two (runs.plain each one.hasSite)
      (runs.plain each two.hasSite) same)

/-- A state is named like another one that is defined in a scope beside it, under ids without a
separator. -/
def shelved : List Operation :=
  [.edit (.scope "T" none), .edit (.scope "A" (some ⟨0⟩)),
    .edit (.state ⟨1⟩ "B" none {} (.pass {})), .edit (.state ⟨0⟩ "B" none {} (.pass {})),
    .edit (.wire ⟨0⟩ (.state ⟨1⟩)), .edit (.stop ⟨1⟩), .inquiry (.graph (some ⟨0⟩) "" .null)]

/-- The same with an id that leads on to the other scope. -/
def slashed : List Operation :=
  [.edit (.scope "T" none), .edit (.scope "A" (some ⟨0⟩)),
    .edit (.state ⟨1⟩ "B" none {} (.pass {})), .edit (.state ⟨0⟩ "A/B" (some "B") {} (.pass {})),
    .edit (.wire ⟨0⟩ (.state ⟨1⟩)), .edit (.stop ⟨1⟩), .inquiry (.graph (some ⟨0⟩) "" .null)]

theorem slashed_shared : (Workspace.run {} slashed).Grows ⟨0⟩ (.state ⟨0⟩) ∧
    (Workspace.run {} slashed).Grows ⟨0⟩ (.state ⟨1⟩) ∧
    ((Workspace.run {} slashed).address (.state ⟨0⟩)).path =
      ((Workspace.run {} slashed).address (.state ⟨1⟩)).path := by
  obtain ⟨one, two⟩ : (Workspace.run {} slashed).Grows ⟨0⟩ (.state ⟨0⟩) ∧
      (Workspace.run {} slashed).Grows ⟨0⟩ (.state ⟨1⟩) :=
    Workspace.grows_nested (c := ⟨1⟩) (by decide) (by decide) rfl (by decide) (by decide) rfl rfl
  exact ⟨one, two, Workspace.path_eq_of_states (show _ = "T/A/B" from rfl) rfl⟩

theorem shelved_paths_identify :
    ∃ v w, Runs {} shelved v ∧ Runs {} slashed w ∧
      (v.address (.state ⟨0⟩)).path ≠ (v.address (.state ⟨1⟩)).path ∧
      (w.address (.state ⟨0⟩)).parent ≠ (w.address (.state ⟨1⟩)).parent ∧
      ∃ label w', Build.compiled ⟨0⟩ w = .error (.duplicateName "B" "T/A/B" "T/A/B" label) w' ∧
        ∃ s t, w.Clash "B" s t ∧ (w.state s).path = "T/A/B" ∧ (w.state t).path = "T/A/B" := by
  have tidy : Runs {} shelved _ := .of_allows (by decide)
  have runs : Runs {} slashed _ := .of_allows (by decide)
  obtain ⟨-, -, -, apart⟩ := tidy.paths_identify
  obtain ⟨-, clash, judged, -⟩ := runs.paths_identify
  have plain : ∀ op ∈ shelved, op.Plain := by simp [shelved, Operation.Plain]
  have different : (Site.state ⟨0⟩) ≠ .state ⟨1⟩ := by decide
  have tree : (Workspace.run {} shelved).Grows ⟨0⟩ (.state ⟨0⟩) ∧
      (Workspace.run {} shelved).Grows ⟨0⟩ (.state ⟨1⟩) :=
    Workspace.grows_nested (c := ⟨1⟩) (by decide) (by decide) rfl (by decide) (by decide) rfl rfl
  obtain ⟨one', two', shared⟩ := slashed_shared
  have fresh : ((Workspace.run {} slashed).graph ⟨0⟩).compiled = none := rfl
  have refused : Build.compiled ⟨0⟩ (Workspace.run {} slashed) =
      .error (.duplicateName "B" "T/A/B" "T/A/B" _) _ := rfl
  have paths := apart plain ⟨0⟩ _ _ tree.1 tree.2 different
  obtain ⟨places, -⟩ := clash ⟨0⟩ _ _ one' two' different shared
  obtain ⟨s, t, both, one, two, -⟩ := judged ⟨0⟩ (by decide) fresh _ _ _ _ _ refused
  exact ⟨_, _, tidy, runs, paths, places, _, _, refused, s, t, both, one, two⟩

/-- Two states of a tree that have the same path, and the fault that cannot tell them apart. -/
theorem slashed_path_shared :
    ∃ w, Runs {} slashed w ∧ w.Grows ⟨0⟩ (.state ⟨0⟩) ∧ w.Grows ⟨0⟩ (.state ⟨1⟩) ∧
      (w.address (.state ⟨0⟩)).path = (w.address (.state ⟨1⟩)).path ∧
      ∃ label w', Build.compiled ⟨0⟩ w = .error (.duplicateName "B" "T/A/B" "T/A/B" label) w' := by
  have runs : Runs {} slashed _ := .of_allows (by decide)
  obtain ⟨one, two, shared⟩ := slashed_shared
  have refused : Build.compiled ⟨0⟩ (Workspace.run {} slashed) =
      .error (.duplicateName "B" "T/A/B" "T/A/B" _) _ := rfl
  exact ⟨_, runs, one, two, shared, _, _, refused⟩

end Runs
end Workflow
