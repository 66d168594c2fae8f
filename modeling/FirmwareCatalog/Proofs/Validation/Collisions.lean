import FirmwareCatalog.Proofs.Validation.Repetition
import FirmwareCatalog.Validation.Hashes

/-!
# Collisions are later claims

The implemented entries of a registry claim their hashes one after the other. A
claim is a collision exactly if an earlier one has its hash, and it collides with
the earliest. No entry claims a hash twice, so two entries are at odds.
-/

namespace FirmwareCatalog

open CatalogEntry

/-- A hash that an implemented entry is found by. The place counts the implemented entries in front of it. -/
structure Claim where
  place : Nat
  hash : UInt16
  owner : String
deriving DecidableEq

namespace Validation

/-! ## Claims -/

section
variable {E : Type} [CatalogEntry E]

def ownClaims (e : E) (place : Nat) : List Claim :=
  ((nameHash? e).map fun hash => ⟨place, hash, describe e⟩).toList

def claimsBy (claims : E → Nat → List Claim) (registry : Registry E) : List Claim :=
  registry.implemented.zipIdx.flatMap fun p => claims p.1 p.2

end

/-- A unit with another name claims the hash of that too, unless it is the hash of its own name. -/
def otherClaims (unit : DisplayUnit) (place : Nat) : List Claim :=
  (unit.otherName.bind fun name =>
    (unit.otherNameHash.filter fun hash => unit.nameHash ≠ some hash).map fun hash =>
      ⟨place, hash, describe unit ++ " alias " ++ name⟩).toList

end Validation

open Validation

def Catalog.claims (catalog : Catalog) : RegistryKind → List Claim
  | .sensor => claimsBy ownClaims catalog.sensors
  | .application => claimsBy ownClaims catalog.applications
  | .unit => claimsBy (fun unit place => ownClaims unit place ++ otherClaims unit place) catalog.units

/-- The claims to a hash that an earlier one has, each behind the earliest. -/
def laterClaims (claims : List Claim) : List (Claim × Claim) :=
  claims.zipIdx.filterMap fun p =>
    ((claims.take p.2).find? fun first => first.hash = p.1.hash).map fun first => (first, p.1)

def collisionOf (kind : RegistryKind) (p : Claim × Claim) : Fault :=
  .hashCollision kind p.2.hash p.1.owner p.2.owner

namespace Validation

/-! ## Later claims -/

theorem laterClaims_concat (claims : List Claim) (c : Claim) :
    laterClaims (claims ++ [c]) =
      laterClaims claims ++ ((claims.find? fun first => first.hash = c.hash).map fun first => (first, c)).toList := by
  rw [laterClaims, List.zipIdx_append, List.filterMap_append]
  congr 1
  · refine List.filterMap_congr fun p hp => ?_
    have hplace : p.2 < claims.length := by simpa using List.snd_lt_of_mem_zipIdx hp
    rw [List.take_append_of_le_length (by omega)]
  · simp [List.filterMap_cons]
    cases claims.find? fun first => first.hash = c.hash <;> rfl

theorem lookup_map_claims (claims : List Claim) (hash : UInt16) :
    (claims.map fun c => (c.hash, c.owner)).lookup hash =
      (claims.find? fun c => c.hash = hash).map (·.owner) := by
  induction claims with
  | nil => rfl
  | cons c claims ih =>
    rw [List.map_cons, List.lookup_cons, ih, List.find?_cons]
    by_cases h : c.hash = hash
    · subst h
      simp
    · simp [h, beq_false_of_ne (Ne.symm h)]

theorem repetitions_claims (claims : List Claim) :
    repetitions (claims.map fun c => (c.hash, c.owner)) =
      (laterClaims claims).map fun p => ⟨p.2.hash, p.1.owner, p.2.owner⟩ := by
  induction claims using List.reverseRecOn with
  | nil => rfl
  | append_singleton claims c ih =>
    rw [List.map_append, List.map_singleton, repetitions_concat, ih, laterClaims_concat, List.map_append,
      lookup_map_claims]
    cases claims.find? fun first => first.hash = c.hash <;> rfl

theorem length_laterClaims (claims : List Claim) :
    (laterClaims claims).length + (claims.map (·.hash)).toFinset.card = claims.length := by
  have hlength := length_repetitions (claims.map fun c => (c.hash, c.owner))
  rwa [repetitions_claims, List.length_map, List.length_map, List.map_map] at hlength

theorem of_mem_laterClaims {R : Claim → Claim → Prop} {claims : List Claim} (h : claims.Pairwise R)
    {p : Claim × Claim} (hp : p ∈ laterClaims claims) : R p.1 p.2 ∧ p.1.hash = p.2.hash := by
  induction claims using List.reverseRecOn with
  | nil => cases hp
  | append_singleton claims c ih =>
    rw [List.pairwise_append] at h
    rw [laterClaims_concat, List.mem_append] at hp
    rcases hp with hp | hp
    · exact ih h.1 hp
    · rw [Option.mem_toList, Option.map_eq_some_iff] at hp
      obtain ⟨first, hfirst, rfl⟩ := hp
      exact ⟨h.2.2 first (List.mem_of_find?_eq_some hfirst) c (List.mem_singleton_self c),
        by simpa using List.find?_some hfirst⟩

/-! ## The claims of a registry -/

theorem pairwise_toList {α : Type} {R : α → α → Prop} (o : Option α) : o.toList.Pairwise R := by
  cases o <;> simp

section
variable {E : Type} [CatalogEntry E] {claims : E → Nat → List Claim}

theorem collisionFaults_eq {owned : E → List (UInt16 × String)}
    (h : ∀ e place, (claims e place).map (fun c => (c.hash, c.owner)) = owned e) (registry : Registry E) :
    collisionFaults owned registry = (laterClaims (claimsBy claims registry)).map (collisionOf (kind E)) := by
  have howned : registry.implemented.flatMap owned =
      (claimsBy claims registry).map fun c => (c.hash, c.owner) := by
    have himplemented : registry.implemented.zipIdx.map Prod.fst = registry.implemented := by simp
    rw [claimsBy, List.map_flatMap]
    simp only [h]
    conv_lhs => rw [← himplemented, List.flatMap_map]
  rw [collisionFaults, howned, repetitions_claims, List.map_map]
  rfl

theorem pairwise_claimsBy (hplace : ∀ e place, ∀ c ∈ claims e place, c.place = place)
    (hapart : ∀ e place, (claims e place).Pairwise fun c d => c.hash ≠ d.hash) (registry : Registry E) :
    (claimsBy claims registry).Pairwise fun c d => c.place < d.place ∨ c.hash ≠ d.hash := by
  rw [claimsBy, List.pairwise_flatMap]
  refine ⟨fun p _ => (hapart p.1 p.2).imp .inr, ?_⟩
  have horder : registry.implemented.zipIdx.Pairwise fun p q => p.2 < q.2 := by
    rw [List.pairwise_iff_getElem]
    intro i j hi hj hij
    simpa using hij
  refine horder.imp fun {p q} hpq c hc d hd => .inl ?_
  rw [hplace p.1 p.2 c hc, hplace q.1 q.2 d hd]
  exact hpq

theorem mem_ownClaims {e : E} {place : Nat} {c : Claim} (h : c ∈ ownClaims e place) :
    c.place = place ∧ nameHash? e = some c.hash := by
  rw [ownClaims, Option.mem_toList, Option.map_eq_some_iff] at h
  obtain ⟨hash, hhash, rfl⟩ := h
  exact ⟨rfl, hhash⟩

theorem ownClaims_owned (e : E) (place : Nat) :
    (ownClaims e place).map (fun c => (c.hash, c.owner)) = nameClaims e := by
  rw [ownClaims, nameClaims]
  cases nameHash? e <;> rfl

theorem pairwise_claimsBy_ownClaims (registry : Registry E) :
    (claimsBy ownClaims registry).Pairwise fun c d => c.place < d.place ∨ c.hash ≠ d.hash :=
  pairwise_claimsBy (fun _ _ _ hc => (mem_ownClaims hc).1) (fun _ _ => pairwise_toList _) registry

end

/-! ## The claims of a unit -/

section
variable {unit : DisplayUnit} {place : Nat}

theorem mem_otherClaims {c : Claim} (h : c ∈ otherClaims unit place) :
    c.place = place ∧ unit.nameHash ≠ some c.hash := by
  rw [otherClaims, Option.mem_toList, Option.bind_eq_some_iff] at h
  obtain ⟨name, -, hc⟩ := h
  obtain ⟨hash, hhash, rfl⟩ := Option.map_eq_some_iff.mp hc
  exact ⟨rfl, by simpa using (Option.filter_eq_some_iff.mp hhash).2⟩

variable (unit place)

theorem unitClaims_owned : (ownClaims unit place ++ otherClaims unit place).map (fun c => (c.hash, c.owner)) =
    unitClaims unit := by
  rw [List.map_append, ownClaims_owned, unitClaims, otherClaims, otherNameClaims]
  congr 1
  cases unit.otherName with
  | none => rfl
  | some name =>
    cases unit.otherNameHash with
    | none => rfl
    | some hash =>
      by_cases h : unit.nameHash = some hash
      · simp [h]
      · simp [h, otherNameOwner]

theorem pairwise_unitClaims :
    (ownClaims unit place ++ otherClaims unit place).Pairwise fun c d => c.hash ≠ d.hash := by
  rw [List.pairwise_append]
  refine ⟨pairwise_toList _, pairwise_toList _, fun c hc d hd he => ?_⟩
  have hown := (mem_ownClaims hc).2
  rw [he] at hown
  exact (mem_otherClaims hd).2 hown

end

theorem pairwise_claims (catalog : Catalog) (kind : RegistryKind) :
    (catalog.claims kind).Pairwise fun c d => c.place < d.place ∨ c.hash ≠ d.hash := by
  cases kind with
  | sensor => exact pairwise_claimsBy_ownClaims catalog.sensors
  | application => exact pairwise_claimsBy_ownClaims catalog.applications
  | unit =>
    refine pairwise_claimsBy (fun unit place c hc => ?_) pairwise_unitClaims catalog.units
    rcases List.mem_append.mp hc with hc | hc
    · exact (mem_ownClaims hc).1
    · exact (mem_otherClaims hc).1

end Validation

/-- **Collisions are the later claims.** For each kind of entry in turn the check lists a fault for every claim to a
hash that an earlier claim has, with the earliest. There are as many as the claims outnumber the claimed hashes, and
each is between two entries. -/
theorem checkCollisions_later_claims (catalog : Catalog) :
    (checkCollisions catalog).findings =
        .ofFaults ([RegistryKind.sensor, .application, .unit].flatMap fun kind =>
          (laterClaims (catalog.claims kind)).map (collisionOf kind)) ∧
      ∀ kind, (laterClaims (catalog.claims kind)).length + ((catalog.claims kind).map (·.hash)).toFinset.card =
          (catalog.claims kind).length ∧
        ∀ p ∈ laterClaims (catalog.claims kind), p.1.hash = p.2.hash ∧ p.1.place < p.2.place := by
  refine ⟨?_, fun kind => ⟨length_laterClaims _, fun p hp => ?_⟩⟩
  · have hsensors := collisionFaults_eq ownClaims_owned catalog.sensors
    have happlications := collisionFaults_eq ownClaims_owned catalog.applications
    have hunits := collisionFaults_eq unitClaims_owned catalog.units
    rw [checkCollisions, hsensors, happlications, hunits]
    simp only [List.flatMap_cons, List.flatMap_nil, List.append_nil, List.append_assoc]
    rfl
  · obtain ⟨hplace, hhash⟩ := of_mem_laterClaims (pairwise_claims catalog kind) hp
    exact ⟨hhash, hplace.resolve_right fun hne => hne hhash⟩

/-- The other name of a scale is the name of the next one, whose own other name claims nothing more, and the other name
of one without a hash. The placeholder between them claims nothing. -/
def scaleCatalog : Catalog :=
  let scale (index : Nat) (fields : List (String × FieldValue)) (implemented : Bool) : DisplayUnit :=
    .ofRecord ⟨index, Table.ofList fields, [], "", .structLiteral, implemented⟩
  { sensors := .empty Sensor
    applications := .empty Application
    units := ⟨[scale 0 [("name", .string "CELSIUS"), ("nameHash", .int 0x82DD), ("alias", .string "C"),
        ("aliasHash", .int 0xB5E8)] true,
      scale 1 [("name", .string "C"), ("nameHash", .int 0xB5E8), ("alias", .string "c"),
        ("aliasHash", .int 0xB5E8)] true,
      scale 2 [("name", .string "C"), ("nameHash", .int 0xB5E8)] false,
      scale 3 [("name", .string "CENTIGRADE"), ("alias", .string "c"), ("aliasHash", .int 0xB5E8)] true],
      .empty, "", ""⟩ }

theorem checkCollisions_later_claims_scales :
    let first : Claim := ⟨0, 0xB5E8, "UNIT[0]:CELSIUS alias C"⟩
    let second : Claim := ⟨1, 0xB5E8, "UNIT[1]:C"⟩
    let third : Claim := ⟨2, 0xB5E8, "UNIT[3]:CENTIGRADE alias c"⟩
    laterClaims (scaleCatalog.claims .unit) = [(first, second), (first, third)] ∧
      (checkCollisions scaleCatalog).findings.faults =
        [.hashCollision .unit 0xB5E8 first.owner second.owner, .hashCollision .unit 0xB5E8 first.owner third.owner] ∧
      2 + ((scaleCatalog.claims .unit).map (·.hash)).toFinset.card = 4 ∧ first.place < third.place := by
  intro first second third
  obtain ⟨hfindings, hkind⟩ := checkCollisions_later_claims scaleCatalog
  obtain ⟨hlength, hplace⟩ := hkind .unit
  have hlater : laterClaims (scaleCatalog.claims .unit) = [(first, second), (first, third)] := by decide +kernel
  have hclaims : (scaleCatalog.claims .unit).length = 4 := by decide +kernel
  refine ⟨hlater, ?_, ?_, ?_⟩
  · rw [hfindings]
    decide +kernel
  · rw [hlater, hclaims] at hlength
    exact hlength
  · exact (hplace (first, third) (by simp [hlater])).2

end FirmwareCatalog
