import Mathlib.Data.List.Induction
import Formulary.Library
import Formulary.Proofs.Registry.Ledger

/-!
# What functions remember

Functions are added, taken away one by one or taken away all together. Afterwards a name leads to
the function that was added last under it in any spelling, unless that was taken away since, and the
functions are in the order in which their names were registered, where a name that was taken away
and added again was registered then. The functions of the library are a beginning like any other:
they are what is left after adding each of them.
-/

namespace Formulary.Functions

inductive Request
  | add (name : String) (body : FunctionBody)
  | remove (name : String)
  | clear

namespace Request

def adds (key : String) : Request → Bool
  | add name _ => Text.lowercase name = key
  | remove _ | clear => false

def drops (key : String) : Request → Bool
  | add .. => false
  | remove name => Text.lowercase name = key
  | clear => true

end Request

def perform (functions : Functions) : Request → Functions
  | .add name body => functions.add name body
  | .remove name => functions.erase name
  | .clear => .empty

def after (functions : Functions) (requests : List Request) : Functions :=
  requests.foldl perform functions

def registrations (world : Ambient) : List Request :=
  (Library.builtins world).map fun f => .add f.name f.body

/-- A function that was added and after which none of its name was added or taken away. -/
def Standing (requests : List Request) (entry : Entry FunctionBody) : Prop :=
  ∃ front rest, requests = front ++ .add entry.name entry.content :: rest ∧
    ∀ request ∈ rest, request.adds entry.key = false ∧ request.drops entry.key = false

/-- The request at a place registered a name: it added a function of the name when none was
standing, and none was taken away since. -/
def RegisteredAt (requests : List Request) (key : String) (place : Nat) : Prop :=
  ∃ front request rest, requests = front ++ request :: rest ∧ front.length = place ∧
    request.adds key = true ∧ (∀ entry, Standing front entry → entry.key ≠ key) ∧
    ∀ later ∈ rest, later.drops key = false

structure InOrder (requests : List Request) (keys : List String) : Prop where
  registered : ∀ key ∈ keys, ∃ place, RegisteredAt requests key place
  ordered : keys.Pairwise fun a b =>
    ∀ i j, RegisteredAt requests a i → RegisteredAt requests b j → i < j

/-! One request more -/

variable {requests : List Request} {request : Request} {entry : Entry FunctionBody}
  {key : String} {place : Nat}

theorem concat_eq_split_iff {last middle : Request} {front rest : List Request} :
    requests ++ [last] = front ++ middle :: rest ↔
      (front = requests ∧ middle = last ∧ rest = []) ∨
        ∃ others, rest = others ++ [last] ∧ requests = front ++ middle :: others := by
  constructor
  · intro h
    rcases List.eq_nil_or_concat rest with rfl | ⟨others, final, rfl⟩
    · obtain ⟨hfront, hlast⟩ := List.append_inj' h rfl
      cases hlast
      exact .inl ⟨hfront.symm, rfl, rfl⟩
    · rw [List.concat_eq_append, ← List.cons_append, ← List.append_assoc] at h
      obtain ⟨hfront, hlast⟩ := List.append_inj' h rfl
      cases hlast
      exact .inr ⟨others, List.concat_eq_append, hfront⟩
  · rintro (⟨rfl, rfl, rfl⟩ | ⟨others, rfl, rfl⟩)
    · rfl
    · rw [List.append_assoc, List.cons_append]

/-- What stands after one request more was added by it, or stood before and is left alone by it. -/
theorem standing_concat : Standing (requests ++ [request]) entry ↔
    request = .add entry.name entry.content ∨
      request.adds entry.key = false ∧ request.drops entry.key = false ∧
        Standing requests entry := by
  simp only [Standing, concat_eq_split_iff]
  constructor
  · rintro ⟨front, rest, ⟨-, hrequest, -⟩ | ⟨others, rfl, hsplit⟩, hkept⟩
    · exact .inl hrequest.symm
    · obtain ⟨hadds, hdrops⟩ := hkept request (List.mem_append_right _ List.mem_cons_self)
      exact .inr ⟨hadds, hdrops, front, others, hsplit, fun later hlater =>
        hkept later (List.mem_append_left _ hlater)⟩
  · rintro (hrequest | ⟨hadds, hdrops, front, others, hsplit, hkept⟩)
    · exact ⟨requests, [], .inl ⟨rfl, hrequest.symm, rfl⟩, nofun⟩
    · refine ⟨front, others ++ [request], .inr ⟨others, rfl, hsplit⟩, fun later hlater => ?_⟩
      rcases List.mem_append.mp hlater with hlater | hlater
      · exact hkept later hlater
      · cases List.mem_singleton.mp hlater
        exact ⟨hadds, hdrops⟩

/-- A name is registered by the latest request, or was before and is not dropped by it. -/
theorem registeredAt_concat : RegisteredAt (requests ++ [request]) key place ↔
    (place = requests.length ∧ request.adds key = true ∧
        ∀ entry, Standing requests entry → entry.key ≠ key) ∨
      request.drops key = false ∧ RegisteredAt requests key place := by
  simp only [RegisteredAt, concat_eq_split_iff]
  constructor
  · rintro ⟨front, middle, rest, ⟨rfl, rfl, rfl⟩ | ⟨others, rfl, hsplit⟩, rfl, hadds, hfresh, hkept⟩
    · exact .inl ⟨rfl, hadds, hfresh⟩
    · exact .inr ⟨hkept request (List.mem_append_right _ List.mem_cons_self), front, middle, others,
        hsplit, rfl, hadds, hfresh, fun later hlater => hkept later (List.mem_append_left _ hlater)⟩
  · rintro (⟨rfl, hadds, hfresh⟩ |
      ⟨hdrops, front, middle, others, hsplit, rfl, hadds, hfresh, hkept⟩)
    · exact ⟨requests, request, [], .inl ⟨rfl, rfl, rfl⟩, rfl, hadds, hfresh, nofun⟩
    · refine ⟨front, middle, others ++ [request], .inr ⟨others, rfl, hsplit⟩, rfl, hadds, hfresh,
        fun later hlater => ?_⟩
      rcases List.mem_append.mp hlater with hlater | hlater
      · exact hkept later hlater
      · cases List.mem_singleton.mp hlater
        exact hdrops

theorem RegisteredAt.lt_length (h : RegisteredAt requests key place) :
    place < requests.length := by
  obtain ⟨front, middle, rest, rfl, rfl, -⟩ := h
  rw [List.length_append, List.length_cons]
  omega

/-- Under a name that was registered, a function is standing. -/
theorem RegisteredAt.exists_standing (h : RegisteredAt requests key place) :
    ∃ entry, Standing requests entry ∧ entry.key = key := by
  induction requests using List.reverseRecOn with
  | nil => exact absurd h.lt_length (Nat.not_lt_zero _)
  | append_singleton requests request ih =>
    by_cases hadds : request.adds key = true
    · cases request with
      | add name body =>
        exact ⟨⟨name, body⟩, standing_concat.mpr (.inl rfl), of_decide_eq_true hadds⟩
      | remove | clear => cases hadds
    · rcases registeredAt_concat.mp h with ⟨-, hadded, -⟩ | ⟨hdrops, hplace⟩
      · exact absurd hadded hadds
      · obtain ⟨entry, hstanding, rfl⟩ := ih hplace
        exact ⟨entry, standing_concat.mpr
          (.inr ⟨Bool.eq_false_iff.mpr hadds, hdrops, hstanding⟩), rfl⟩

theorem after_concat (functions : Functions) (requests : List Request) (request : Request) :
    functions.after (requests ++ [request]) = (functions.after requests).perform request := by
  rw [after, List.foldl_append]
  rfl

/-! What is found -/

theorem not_standing_nil : ¬ Standing [] entry := fun ⟨front, rest, h, _⟩ =>
  List.append_ne_nil_of_right_ne_nil front (List.cons_ne_nil _ rest) h.symm

/-- What a name leads to after a request: the function that was added by it, or the one of before if
the request has nothing to do with the name. -/
theorem find?_perform {functions : Functions} {name : String} :
    (functions.perform request).find? name = some entry ↔ entry.key = Text.lowercase name ∧
      (request = .add entry.name entry.content ∨
        request.adds entry.key = false ∧ request.drops entry.key = false ∧
          functions.find? name = some entry) := by
  have hother {other : String} (hkey : Text.lowercase other ≠ Text.lowercase name)
      (hentry : entry.key = Text.lowercase name) :
      decide (Text.lowercase other = entry.key) = false :=
    decide_eq_false fun h => hkey (h.trans hentry)
  have hfound (h : functions.find? name = some entry) : entry.key = Text.lowercase name :=
    (Registry.find?_eq_some_iff.mp h).2
  cases request with
  | add other body =>
    have hfind : (functions.add other body).find? name =
        if Text.lowercase other = Text.lowercase name then some ⟨other, body⟩
        else functions.find? name := Registry.find?_put functions ⟨other, body⟩ name
    rw [perform, hfind]
    by_cases hkey : Text.lowercase other = Text.lowercase name
    · rw [if_pos hkey]
      constructor
      · intro h
        cases h
        exact ⟨hkey, .inl rfl⟩
      · rintro ⟨hentry, hrequest | ⟨hadds, -, -⟩⟩
        · cases hrequest
          rfl
        · exact absurd (hkey.trans hentry.symm) (of_decide_eq_false hadds)
    · rw [if_neg hkey]
      constructor
      · intro h
        exact ⟨hfound h, .inr ⟨hother hkey (hfound h), rfl, h⟩⟩
      · rintro ⟨hentry, hrequest | ⟨-, -, h⟩⟩
        · cases hrequest
          exact absurd hentry hkey
        · exact h
  | remove other =>
    rw [perform, Registry.find?_erase]
    by_cases hkey : Text.lowercase other = Text.lowercase name
    · rw [if_pos hkey]
      constructor
      · nofun
      · rintro ⟨hentry, hrequest | ⟨-, hdrops, -⟩⟩
        · cases hrequest
        · exact absurd (hkey.trans hentry.symm) (of_decide_eq_false hdrops)
    · rw [if_neg hkey]
      constructor
      · intro h
        exact ⟨hfound h, .inr ⟨rfl, hother hkey (hfound h), h⟩⟩
      · rintro ⟨-, hrequest | ⟨-, -, h⟩⟩
        · cases hrequest
        · exact h
  | clear =>
    rw [perform, Registry.find?_empty]
    constructor
    · nofun
    · rintro ⟨-, hrequest | ⟨-, hdrops, -⟩⟩
      · cases hrequest
      · cases hdrops

/-- A name leads to the function of the name that is standing. -/
theorem find?_after {name : String} : (after .empty requests).find? name = some entry ↔
    entry.key = Text.lowercase name ∧ Standing requests entry := by
  induction requests using List.reverseRecOn with
  | nil =>
    have hempty : (after .empty []).find? name = none := Registry.find?_empty name
    simp only [hempty, reduceCtorEq, not_standing_nil, and_false]
  | append_singleton requests request ih =>
    rw [after_concat, find?_perform, ih, standing_concat]
    refine and_congr_right fun hentry => ?_
    rw [and_iff_right hentry]

theorem mem_toList_after : entry ∈ (after .empty requests).toList ↔ Standing requests entry := by
  have hfind : entry.key = Text.lowercase entry.name ∧ Standing requests entry ↔
      entry ∈ (after .empty requests).toList ∧ entry.key = Text.lowercase entry.name :=
    find?_after.symm.trans Registry.find?_eq_some_iff
  exact ⟨fun h => (hfind.mpr ⟨h, rfl⟩).2, fun h => (hfind.mp ⟨rfl, h⟩).1⟩

/-! The order -/

theorem mem_keys_after :
    key ∈ (after .empty requests).toList.map Entry.key ↔
      ∃ entry, Standing requests entry ∧ entry.key = key := by
  simp only [List.mem_map, mem_toList_after]

/-- A request that does not drop a name, and that adds it only where it is standing, leaves it
registered where it was. -/
def Keeps (requests : List Request) (request : Request) (key : String) : Prop :=
  request.drops key = false ∧
    (request.adds key = true → ∃ entry, Standing requests entry ∧ entry.key = key)

theorem Keeps.registeredAt_iff (h : Keeps requests request key) :
    RegisteredAt (requests ++ [request]) key place ↔ RegisteredAt requests key place := by
  rw [registeredAt_concat, and_iff_right h.1]
  refine or_iff_right fun ⟨_, hadds, hfresh⟩ => ?_
  obtain ⟨entry, hstanding, hkey⟩ := h.2 hadds
  exact hfresh entry hstanding hkey

theorem InOrder.concat {keys others : List String} (h : InOrder requests keys)
    (hothers : others.Sublist keys) (hkeeps : ∀ key ∈ others, Keeps requests request key) :
    InOrder (requests ++ [request]) others := by
  refine ⟨fun key hkey => ?registered, ?ordered⟩
  case registered =>
    obtain ⟨place, hplace⟩ := h.registered key (hothers.subset hkey)
    exact ⟨place, (hkeeps key hkey).registeredAt_iff.mpr hplace⟩
  case ordered =>
    refine (h.ordered.sublist hothers).imp_of_mem fun {a b} ha hb hlt i j hi hj => ?_
    exact hlt i j ((hkeeps a ha).registeredAt_iff.mp hi) ((hkeeps b hb).registeredAt_iff.mp hj)

/-- A name that is registered by the last request comes behind all others. -/
theorem InOrder.register {keys : List String} (h : InOrder requests keys)
    (hkeeps : ∀ other ∈ keys, Keeps requests request other) (hadds : request.adds key = true)
    (hfresh : ∀ entry, Standing requests entry → entry.key ≠ key) :
    InOrder (requests ++ [request]) (keys ++ [key]) := by
  have hkeys := h.concat (List.Sublist.refl keys) hkeeps
  refine ⟨fun other hother => ?registered, List.pairwise_append.mpr ⟨hkeys.ordered, ?_, ?ordered⟩⟩
  case registered =>
    rcases List.mem_append.mp hother with hother | hother
    · exact hkeys.registered other hother
    · cases List.mem_singleton.mp hother
      exact ⟨requests.length, registeredAt_concat.mpr (.inl ⟨rfl, hadds, hfresh⟩)⟩
  case ordered =>
    intro other hother last hlast i j hi hj
    cases List.mem_singleton.mp hlast
    have hlt := ((hkeeps other hother).registeredAt_iff.mp hi).lt_length
    rcases registeredAt_concat.mp hj with ⟨rfl, -⟩ | ⟨-, hbefore⟩
    · exact hlt
    · obtain ⟨entry, hstanding, hkey⟩ := hbefore.exists_standing
      exact absurd hkey (hfresh entry hstanding)
  exact List.pairwise_singleton _ _

/-- Functions come in the order in which their names were registered. -/
theorem inOrder_after (requests : List Request) :
    InOrder requests ((after .empty requests).toList.map Entry.key) := by
  induction requests using List.reverseRecOn with
  | nil => exact ⟨nofun, .nil⟩
  | append_singleton requests request ih =>
    rw [after_concat]
    cases request with
    | add name body =>
      have hkeeps : ∀ key ∈ (after .empty requests).toList.map Entry.key,
          Keeps requests (.add name body) key := fun key hkey =>
        ⟨rfl, fun _ => mem_keys_after.mp hkey⟩
      rw [perform, add, Registry.toList_put, Ledger.keys_put]
      split
      · rw [List.append_nil]
        exact ih.concat (List.Sublist.refl _) hkeeps
      · next habsent =>
        refine ih.register hkeeps (decide_eq_true rfl) fun entry hstanding hkey => habsent ?_
        exact mem_keys_after.mpr ⟨entry, hstanding, hkey⟩
    | remove name =>
      rw [perform, Registry.toList_erase]
      refine ih.concat (List.filter_sublist.map _) fun key hkey => ⟨?_, nofun⟩
      obtain ⟨entry, hentry, rfl⟩ := List.mem_map.mp hkey
      have hother : entry.key ≠ Text.lowercase name :=
        of_decide_eq_true (List.mem_filter.mp hentry).2
      exact decide_eq_false hother.symm
    | clear => exact ih.concat (List.nil_sublist _) nofun

/-- The functions of the library are what is left after registering each of them. -/
theorem functions_eq_after (world : Ambient) :
    Library.functions world = after .empty (registrations world) := by
  rw [after, registrations, List.foldl_map]
  rfl

/-- Whatever was added and taken away, from nothing or from the library on, the index has each name
at its place in the list and nothing else. A name in any spelling leads to the function that was
added last under it and is standing, a function that is added again takes the place of the one of
before with its own spelling, and the names stand in the order in which they were registered. -/
theorem after_holds_standing (world : Ambient) (requests : List Request) :
    (Library.functions world).after requests =
        after .empty (registrations world ++ requests) ∧
      let functions := after .empty requests
      (∀ key, functions.index[key]? = Ledger.position? key functions.toList) ∧
      Ledger.Distinct functions.toList ∧
      (∀ name entry, functions.find? name = some entry ↔
        entry.key = Text.lowercase name ∧ Standing requests entry) ∧
      (∀ name body, (functions.add name body).toList = (functions.position? name).elim
        (functions.toList ++ [⟨name, body⟩]) (functions.toList.set · ⟨name, body⟩)) ∧
      InOrder requests (functions.toList.map Entry.key) := by
  refine ⟨?library, Registry.index_eq _, Registry.distinct_toList _, fun _ _ => find?_after,
    fun name body => ?again, inOrder_after requests⟩
  case library => rw [functions_eq_after, after, after, after, List.foldl_append]
  case again =>
    rw [add, Registry.toList_put, Ledger.put_eq, Registry.position?, Registry.index_eq]
    rfl

end Formulary.Functions
