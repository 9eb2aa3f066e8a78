import NavQuery.Proofs.Company
import NavQuery.Proofs.FormedSpaces

/-!
Rebuilding, unmasking and companions keep spaces and codes formed. A code keeps its domain on the way,
and a quotient the domains of its kernels.
-/

namespace NavQuery

open List Discipline Ensures

def Family.types : Family → List (List Domain)
  | scalar | table _ => []
  | quotient _ _ ks f => ks.map Code.domain :: f.types

lemma Family.types_inner (f : Family) : f.inner.types = f.types.tail := by
  cases f <;> rfl

lemma Family.domains_kernels (f : Family) : f.kernels.map Code.domain = f.types.headD [] := by
  cases f <;> rfl

variable [Lenient]

/-- A formed space that takes the place of another one: its kernels have the domains of theirs. -/
structure Space.Replaces (old new : Space) : Prop where
  formed : new.Formed
  types : new.family.types = old.family.types

structure Code.Replaces (old new : Code) : Prop where
  formed : new.Formed
  domain : new.domain = old.domain

lemma Space.Formed.originColumn {s : Space} (h : s.Formed) (c : Column) : (s.originColumn c).1.Formed := by
  fun_induction Space.originColumn s c with
  | case1 _ _ _ _ _ _ _ _ ih =>
    cases h with
    | fiber hb => exact ih hb
  | case2 | case3 | case4 => exact h

def Part.Formed : Part → Prop
  | space s => s.Formed
  | code c => c.Formed

lemma Part.Formed.made {a : Part} (h : a.Formed) : a.Made Part.Formed := by
  rcases a with s | c
  · cases h with
    | linked hb hs hl hr _ => exact ⟨hb, hs, fun i hi => ⟨hl i hi, hr i hi⟩⟩
    | ordered hb hos => exact ⟨hb, hos⟩
    | _ => simp_all [Made, Part.Formed]
  · cases h <;> simp_all [Made, Part.Formed]

/-- What is formed is rebuilt formed. -/
abbrev forming : Renewal where
  given := Part.Formed
  core := Part.Formed.made
  space := Space.Replaces
  code := Code.Replaces

lemma Code.formed_of_replaces {cs cs' : List Code} (h : Forall₂ forming.code cs cs') : ∀ c ∈ cs', c.Formed :=
  forall_mem_of_forall₂ h fun _ _ h => h.formed

lemma Code.domains_of_replaces {cs cs' : List Code} (h : Forall₂ forming.code cs cs') :
    cs'.map Code.domain = cs.map Code.domain :=
  (map_eq_map_of_forall₂ h fun _ _ h => h.domain.symm).symm

lemma forming_unmasks : forming.Unmasks where
  space {x y} h hj := by
    have hcs := Space.Formed.companions h
    cases hj with
    | root => exact ⟨.root, rfl⟩
    | scalar hb => exact ⟨.scalar hb.formed, rfl⟩
    | table hb => exact ⟨.table hb.formed, rfl⟩
    | fiber hb => exact ⟨.fiber hb.formed, rfl⟩
    | quotient hb hs hks =>
      refine ⟨.quotient hb.formed hs.formed (Code.formed_of_replaces hks) hcs, ?_⟩
      simp only [Space.family, Family.types, Code.domains_of_replaces hks, hs.types]
    | complement hb =>
      refine ⟨.complement hb.formed hcs, ?_⟩
      simp only [Space.family, Family.types_inner, hb.types]
    | moniker hb hs => exact ⟨.moniker hb.formed hs.formed hcs, hs.types⟩
    | forked hb hs hks => exact ⟨.forked hb.formed hs.formed (Code.formed_of_replaces hks) hcs, hb.types⟩
    | linked hb hs his =>
      have his := forall_mem_of_forall₂ his fun _ _ h => And.intro h.1.formed h.2.formed
      exact ⟨.linked hb.formed hs.formed (fun i hi => (his i hi).1) (fun i hi => (his i hi).2) hcs, hs.types⟩
    | filtered hb hc => exact ⟨.filtered hb.formed hc.formed, hb.types⟩
    | ordered hb hos =>
      exact ⟨.ordered hb.formed (forall_mem_of_forall₂ hos fun _ _ h => h.1.formed), hb.types⟩
  code {x y} h hj := by
    have hcs := Code.Formed.companions h
    cases hj with
    | missing | literal | parameter => exact ⟨h, rfl⟩
    | cast hc => exact ⟨.cast hc.formed, rfl⟩
    | formula has =>
      cases h with
      | formula ho =>
        exact ⟨.formula (Code.domains_of_replaces has ▸ ho) (Code.formed_of_replaces has), rfl⟩
    | correlation hc => exact ⟨.correlation hc.formed, hc.domain⟩
    | column hs => exact ⟨.column hs.formed, rfl⟩
    | single hc hs => exact ⟨.single hc.formed hs.formed hcs, hc.domain⟩
    | aggregate hc hp hs => exact ⟨.aggregate hc.formed hp.formed hs.formed hcs, hc.domain⟩
    | correlated hc hp hs => exact ⟨.correlated hc.formed hp.formed hs.formed, hc.domain⟩
    | @kernel _ _ _ _ _ i hplace hs hk =>
      refine ⟨.kernel (hs.formed.family.kernels _ (mem_of_getElem? hk)) hs.formed, ?_⟩
      obtain ⟨hlt, hbeq, _⟩ := findIdx?_eq_some_iff_getElem.1 hplace
      have hdomains := congrArg (List.headD · []) hs.types
      rw [← Family.domains_kernels, ← Family.domains_kernels] at hdomains
      have hplace := congrArg (·[i]?) hdomains
      simp only [getElem?_map, hk, getElem?_eq_getElem hlt, Option.map_some] at hplace
      have hsame := Code.domain_of_beq hbeq
      exact (Option.some.inj hplace).trans hsame
    | covering hc hs => exact ⟨.covering hc.formed hs.formed, hc.domain⟩
  filtered hb := ⟨hb.formed, hb.types⟩
  ordered hb := ⟨hb.formed, hb.types⟩
  single _ hc := ⟨hc.formed, hc.domain⟩
  column h hs := ⟨.column (hs.formed.originColumn _), rfl⟩

lemma Code.Formed.isTrue {c : Code} (h : c.Formed) : Passes c.isTrue := by
  unfold Code.isTrue
  split
  next m v =>
    cases h with
    | literal h =>
      obtain ⟨b, rfl⟩ | rfl | herror := Tolerant.kind h
      · exact trivial
      · exact trivial
      · cases v <;> first | exact trivial | exact herror
  next => exact trivial

lemma forming_accompanies (units : List Code) : forming.Accompanies units where
  toJoins := forming_unmasks.toJoins
  quotient {_ _ _ y _ _ codes} h hj hks := by
    obtain ⟨hformed, htypes⟩ := forming_unmasks.space h hj
    refine ⟨hformed.withCompanions fun k hk => ?_, ?_⟩
    · obtain ⟨_, -, hk⟩ := hks k hk
      exact hk.formed
    · rw [← htypes]
      cases y <;> rfl
  unit {_ y ks} _ h hj hks := by
    obtain ⟨hformed, hdomain⟩ := forming_unmasks.code h hj
    refine ⟨hformed.withCompanions fun k hk => ?_, ?_⟩
    · obtain ⟨_, -, hk⟩ := hks k hk
      exact hk.formed
    · rw [← hdomain]
      cases y <;> rfl

namespace Segment

structure Formed (s : Segment) : Prop where
  root : s.root.Formed
  space : s.space.Formed
  codes : ∀ c ∈ s.codes, c.Formed

structure Gives (ds : List Domain) (s : Segment) : Prop where
  formed : s.Formed
  domains : s.codes.map Code.domain = ds

variable {s : Segment}

lemma Formed.parts (h : s.Formed) : ∀ a ∈ s.parts, a.Formed := forall_parts.2 ⟨h.root, h.space, h.codes⟩

lemma Renewed.gives {t : Segment} (h : Renewed forming s t) : Gives (s.codes.map Code.domain) t :=
  ⟨⟨h.root.formed, h.space.formed, Code.formed_of_replaces h.codes⟩, Code.domains_of_replaces h.codes⟩

lemma Formed.simplify (h : s.Formed) : Ensures (Gives (s.codes.map Code.domain)) s.simplify := by
  have htidy := forming_unmasks.tidy forming_unmasks.filtered fun _ hc => hc.formed.isTrue
  refine (ensures_rebuild htidy h.parts).bind fun t ht => ?_
  refine (ensures_unmask forming_unmasks _ ht.gives.formed.parts).bind fun u hu => ?_
  refine (ensures_accompany (forming_accompanies _) hu.gives.formed.parts).imp fun v hv => ?_
  exact ⟨hv.gives.formed, hv.gives.domains.trans (hu.gives.domains.trans ht.gives.domains)⟩

end Segment

end NavQuery
