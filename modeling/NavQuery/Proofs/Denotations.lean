import NavQuery.Proofs.TypedBindings
import NavQuery.Segment.OfBinding

/-!
A typed flow denotes a formed space and a typed value a code of its domain. So the segment of a typed
query is formed, and its codes have the domains of the fields.
-/

namespace NavQuery

open List Code

attribute [local instance] Discipline.typed

namespace Binding

structure Denotes (b : Binding) : Prop where
  space : Ensures (fun s => s.Formed ∧ ∀ ds, b.kernelDomains? = some ds →
    s.family.kernels.map Code.domain = ds) b.relate
  code : Ensures (Suits b.domain) b.encode

lemma encodeAll_eq (bs : List Binding) : encodeAll bs = bs.mapM encode :=
  eq_mapM_of_cons bs rfl fun _ _ => rfl

lemma encodeImages_eq (is : List (Binding × Binding)) : encodeImages is = is.mapM encodeImage :=
  eq_mapM_of_cons is rfl fun _ _ => rfl

section Lists

variable {b : Binding} {bs : List Binding}

lemma Denotes.formed (h : b.Denotes) : Ensures Space.Formed b.relate := h.space.imp fun _ hs => hs.1

lemma ensures_encodeAll (h : ∀ b ∈ bs, b.Denotes) :
    Ensures (fun cs => (∀ c ∈ cs, c.Formed) ∧ cs.map Code.domain = bs.map domain ∧
      List.Forall₂ (fun c d => Suits d c) cs (bs.map domain)) (encodeAll bs) := by
  rw [encodeAll_eq]
  refine (Ensures.mapM_forall₂ fun b hb => (h b hb).code).imp fun cs hcs => ?_
  have hsuits : List.Forall₂ (fun c d => Suits d c) cs (bs.map domain) :=
    forall₂_map_right_iff.2 hcs.flip
  exact ⟨(formed_of_forall₂ hsuits).1, (formed_of_forall₂ hsuits).2, hsuits⟩

lemma ensures_encodeImages {is : List (Binding × Binding)} (hl : ∀ i ∈ is, i.1.Denotes)
    (hr : ∀ i ∈ is, i.2.Denotes) :
    Ensures (fun images => ∀ i ∈ images, i.1.Formed ∧ i.2.Formed) (encodeImages is) := by
  rw [encodeImages_eq]
  refine Ensures.mapM fun i hi => ?_
  obtain ⟨left, right⟩ := i
  exact (hl _ hi).code.bind fun a ha => (hr _ hi).code.bind fun c hc =>
    .pure (a := (a, c)) ⟨ha.formed, hc.formed⟩

end Lists

/-- A typed binding denotes a formed space or a code of its domain. -/
theorem Typed.denotes {b : Binding} (h : b.Typed) : b.Denotes := by
  induction h with
  | root => exact ⟨⟨.root, nofun⟩, .query _ _⟩
  | home _ ihb => exact ⟨ihb.formed.bind fun _ hs => .pure ⟨.scalar hs, nofun⟩, .query _ _⟩
  | table _ ihb =>
    refine ⟨ihb.formed.bind fun _ hs => Space.ensures_checked ⟨.table hs, nofun⟩, .query _ _⟩
  | attach _ ihb =>
    refine ⟨ihb.formed.bind fun _ hs => Space.ensures_checked ⟨.fiber hs, nofun⟩, .query _ _⟩
  | @column l b c link _ hd _ ihb ihlink =>
    refine ⟨?_, ihb.formed.bind fun s hs => .pure ⟨.column hs, hd.symm, rfl⟩⟩
    cases link with
    | none => exact ihb.formed.imp fun s hs => ⟨hs, nofun⟩
    | some k => exact (ihlink k rfl).space
  | quotient _ _ _ ihb ihs ihks =>
    refine ⟨?_, .query _ _⟩
    refine ihb.formed.bind fun base hbase => ihs.formed.bind fun seed hseed => ?_
    unfold quotientOf
    split
    · exact .query _ _
    split
    · exact .query _ _
    refine (ensures_encodeAll ihks).bind fun ks hks => .pure ⟨?_, fun ds hds => ?_⟩
    · exact .quotient hbase hseed hks.1 (forall_mem_nil _)
    · exact hks.2.1.trans (Option.some.inj hds)
  | kernel _ hds hd ihb =>
    refine ⟨ihb.formed.imp fun s hs => ⟨hs, nofun⟩, ?_⟩
    refine ihb.space.bind fun s hs => ?_
    rw [← hs.2 _ hds, getElem?_map] at hd
    obtain ⟨k, hk, hkd⟩ := Option.map_eq_some_iff.1 hd
    unfold kernelUnit
    rw [hk]
    have hkernel : k.Formed := hs.1.family.kernels k (mem_of_getElem? hk)
    exact .pure ⟨.kernel hkernel hs.1, hkd, rfl⟩
  | complement _ ihb =>
    refine ⟨ihb.formed.bind fun s hs => Space.ensures_checked ⟨?_, nofun⟩, .query _ _⟩
    exact .complement hs (forall_mem_nil _)
  | cover _ _ ihb ihs =>
    refine ⟨ihb.formed.bind fun s hs => ihs.formed.bind fun t ht => Space.ensures_checked ⟨?_, nofun⟩,
      .query _ _⟩
    exact .moniker hs ht (forall_mem_nil _)
  | fork _ _ ihb ihks =>
    refine ⟨?_, .query _ _⟩
    refine ihb.formed.bind fun s hs => (ensures_encodeAll ihks).bind fun ks hks => .pure ⟨?_, nofun⟩
    exact .forked hs hs hks.1 (forall_mem_nil _)
  | link _ _ _ _ ihb ihs ihl ihr =>
    refine ⟨?_, .query _ _⟩
    refine ihb.formed.bind fun s hs => ihs.formed.bind fun t ht => ?_
    refine (ensures_encodeImages ihl ihr).bind fun is his => Space.ensures_checked ⟨?_, nofun⟩
    exact .linked hs ht (fun i hi => (his i hi).1) (fun i hi => (his i hi).2) (forall_mem_nil _)
  | sieve _ _ _ ihb ihf =>
    refine ⟨?_, .query _ _⟩
    exact ihb.space.bind fun s hs => ihf.code.bind fun c hc => .pure ⟨.filtered hs.1 hc.formed, hs.2⟩
  | sort _ _ ihb ihos =>
    refine ⟨?_, .query _ _⟩
    refine ihb.space.bind fun s hs => (ensures_encodeAll ihos).bind fun cs hcs => .pure ⟨?_, hs.2⟩
    exact .ordered hs.1 fun i hi => hcs.1 i.1 (of_mem_zip hi).1
  | rescoping _ _ hd iho ihs =>
    refine ⟨iho.formed.imp fun s hs => ⟨hs, nofun⟩, ?_⟩
    refine iho.code.bind fun c hc => ihs.formed.bind fun s hs => .pure ?_
    rw [domain, label, hd]
    exact hc.single hs
  | selection _ _ ihb _ => exact ⟨ihb.space, .query _ _⟩
  | direction _ hd iho => exact ⟨iho.space, by rw [encode, domain, label, hd]; exact iho.code⟩
  | literal hv => exact ⟨.query _ _, suits_literal hv⟩
  | parameter => exact ⟨.query _ _, suits_parameter⟩
  | cast _ hd iho =>
    refine ⟨iho.formed.imp fun s hs => ⟨hs, nofun⟩, ?_⟩
    exact ensures_convert iho.code iho.formed hd
  | formula _ _ hf ihs ihas =>
    refine ⟨ihs.formed.imp fun s hs => ⟨hs, nofun⟩, ?_⟩
    exact (ensures_encodeAll ihas).bind fun cs hcs => ensures_ofFormula hf hcs.2.2 ihs.formed
  | ambiguous => exact ⟨.query _ _, .query _ _⟩
  | collect _ _ ihb _ => exact ⟨ihb.formed.imp fun s hs => ⟨hs, nofun⟩, .query _ _⟩

end Binding

namespace Segment

def domainsOf (b : Binding) : List Domain :=
  match Content.elements? b with
  | some es => es.map Binding.domain
  | none => [b.domain]

def Content.Denotes (ds : List Domain) : Content → Prop
  | .selection space codes => Ensures Space.Formed space ∧
      Ensures (fun cs => (∀ c ∈ cs, c.Formed) ∧ cs.map Code.domain = ds) codes
  | .value code => ∃ d, ds = [d] ∧ Ensures (Suits d) code

lemma denotes_content {b : Binding} (h : b.Typed) : (Content.ofBinding b).Denotes (domainsOf b) := by
  unfold Content.ofBinding domainsOf
  cases hes : Content.elements? b with
  | none => exact ⟨b.domain, rfl, h.denotes.code⟩
  | some es =>
    refine ⟨h.denotes.formed, ?_⟩
    cases h with
    | selection _ helements =>
      obtain rfl := Option.some.inj hes
      exact (Binding.ensures_encodeAll fun e he => (helements e he).denotes).imp fun cs hcs => ⟨hcs.1, hcs.2.1⟩
    | _ => cases hes

section Segments

variable {mark : Mark} {root space : Space} {value : Code} {content : Content} {ds : List Domain}

lemma formed_presentOnly (hs : space.Formed) (hv : value.Formed) : (presentOnly mark value space).Formed := by
  unfold presentOnly
  split
  · split
    · exact .filtered hs (.literal rfl)
    · exact hs
  · exact .filtered hs (suits_notNull hv).formed

lemma ensures_spaceAndCodes (hroot : root.Formed) (h : content.Denotes ds) :
    Ensures (fun r => r.1.Formed ∧ ((∀ c ∈ r.2.1, c.Formed) ∧ r.2.1.map Code.domain = ds) ∧
      ∀ v, r.2.2 = some v → v.Formed) (spaceAndCodes mark root content) := by
  cases content with
  | selection space codes =>
    exact h.1.bind fun s hs => h.2.bind fun cs hcs => .pure ⟨hs, hcs, nofun⟩
  | value code =>
    obtain ⟨d, rfl, hcode⟩ := h
    refine hcode.bind fun c hc => ?_
    have hgives {s : Space} (hs : s.Formed) : s.Formed ∧ ((∀ k ∈ [c], k.Formed) ∧ [c].map Code.domain = [d]) ∧
        ∀ v, some c = some v → v.Formed :=
      ⟨hs, ⟨forall_mem_singleton.2 hc.formed, congrArg (fun e => [e]) hc.domain⟩,
        fun v hv => Option.some.inj hv ▸ hc.formed⟩
    split
    · exact hgives hroot
    next s hs =>
      refine hgives (hc.formed.unitSpaces (Space.mem_of_mem_maximal (hs ▸ mem_cons_self)))
    · exact .query _ _

lemma ensures_ofContent (hroot : root.Formed) (h : content.Denotes ds) :
    Ensures (Gives ds) (ofContent mark root content) := by
  refine (ensures_spaceAndCodes hroot h).bind fun r hr => ?_
  obtain ⟨space, codes, value⟩ := r
  obtain ⟨hspace, hcodes, hvalue⟩ := hr
  dsimp only at hspace hcodes hvalue ⊢
  split
  · exact .query _ _
  split
  · exact .query _ _
  · refine ⟨⟨hroot, ?_, hcodes.1⟩, hcodes.2⟩
    cases value with
    | none => exact hspace
    | some v => exact formed_presentOnly hspace (hvalue v rfl)

/-- The segment of a typed query is formed and gives what the query asks for. -/
theorem ensures_ofBinding {l : Label} {base seed : Binding} (hb : base.Typed) (hs : seed.Typed) :
    Ensures (Gives (domainsOf seed)) (ofBinding (.collect l base seed)) := by
  rw [ofBinding_collect]
  exact hb.denotes.formed.bind fun root hroot => ensures_ofContent hroot (denotes_content hs)

end Segments

end Segment

end NavQuery
