import AssetBake.Job
import AssetBake.Proofs.Key.Derivation
import Mathlib

/-!
# Planning

A plan gives every file of the walk a key of its own, in the order of the walk, or it names the first
file that has no key or whose key belongs to an earlier file. The invariant of the run is that the
registry holds exactly the keys given so far, each with the path that has it.
-/

namespace AssetBake

/-! ### Keys and their owners -/

theorem KeyStyle.keyOf_eq_ok_iff {style : KeyStyle} {relative : Path} {key : List Char} :
    style.keyOf relative = .ok key ↔ style.derive relative = .ok key := by
  rw [keyOf]
  cases style.derive relative <;> simp

theorem KeyStyle.keyOf_eq_error_iff {style : KeyStyle} {relative : Path} {failure : Failure} :
    style.keyOf relative = .error failure ↔ ∃ fault, style.derive relative = .error fault ∧
      failure = .invalidAssetName relative fault.message := by
  rw [keyOf]
  cases style.derive relative <;> simp [eq_comm]

namespace Registry

/-- The registry in which some files have their keys. -/
def ofPlanned (done : List Planned) : Registry :=
  ⟨(done.map fun p => (p.key, p.source.relative)).reverse⟩

theorem ofPlanned_append (done : List Planned) (p : Planned) :
    ofPlanned (done ++ [p]) = ⟨(p.key, p.source.relative) :: (ofPlanned done).owners⟩ := by
  simp [ofPlanned]

theorem owner?_ofPlanned_eq_none_iff {done : List Planned} {key : List Char} :
    (ofPlanned done).owner? key = none ↔ key ∉ done.map (·.key) := by
  rw [owner?, ofPlanned, List.lookup_eq_none_iff]
  constructor
  · intro hall hmem
    obtain ⟨p, hp, rfl⟩ := List.mem_map.1 hmem
    have hne := hall (p.key, p.source.relative)
      (List.mem_reverse.2 (List.mem_map.2 ⟨p, hp, rfl⟩))
    exact bne_iff_ne.1 hne rfl
  · intro hnew entry hentry
    obtain ⟨p, hp, rfl⟩ := List.mem_map.1 (List.mem_reverse.1 hentry)
    exact bne_iff_ne.2 fun heq => hnew (heq ▸ List.mem_map.2 ⟨p, hp, rfl⟩)

theorem exists_of_owner?_ofPlanned {done : List Planned} {key : List Char} {path : Path}
    (h : (ofPlanned done).owner? key = some path) :
    ∃ p ∈ done, p.key = key ∧ p.source.relative = path := by
  obtain ⟨front, back, hsplit, _⟩ := List.lookup_eq_some_iff.1 h
  have hmem : (key, path) ∈ (ofPlanned done).owners := by simp [hsplit]
  simpa [ofPlanned] using hmem

/-- A key can be claimed if no file has it yet; its file is then the last that has a key. -/
theorem claim_ofPlanned_eq_ok_iff {done : List Planned} {key : List Char} {source : Source}
    {taken : Registry} :
    (ofPlanned done).claim key source.relative = .ok taken ↔
      key ∉ done.map (·.key) ∧ taken = ofPlanned (done ++ [⟨key, source⟩]) := by
  rw [claim, ofPlanned_append]
  cases howner : (ofPlanned done).owner? key with
  | none => simp [owner?_ofPlanned_eq_none_iff.1 howner, eq_comm]
  | some path =>
    have htaken : ¬key ∉ done.map (·.key) := fun h => by
      simp [owner?_ofPlanned_eq_none_iff.2 h] at howner
    simp only [reduceCtorEq, htaken, false_and]

theorem exists_of_claim_ofPlanned_eq_error {done : List Planned} {key : List Char} {path : Path}
    {failure : Failure} (h : (ofPlanned done).claim key path = .error failure) :
    ∃ p ∈ done, p.key = key ∧
      failure = .duplicateKey (String.ofList key) p.source.relative path := by
  rw [claim] at h
  cases howner : (ofPlanned done).owner? key with
  | none => simp [howner] at h
  | some first =>
    obtain ⟨p, hp, hkey, rfl⟩ := exists_of_owner?_ofPlanned howner
    refine ⟨p, hp, hkey, ?_⟩
    simpa [howner, eq_comm] using h

end Registry

namespace Job

/-! ### One step and the whole run -/

/-- A plan is refused at a file that has no key, or whose key one of the files before it has. -/
inductive Refusal (style : KeyStyle) (done : List Planned) (source : Source) : Failure → Prop
  | noKey {fault : NameFault} (h : style.derive source.relative = .error fault) :
      Refusal style done source (.invalidAssetName source.relative fault.message)
  | taken {owner : Planned} (howner : owner ∈ done)
      (h : style.derive source.relative = .ok owner.key) :
      Refusal style done source
        (.duplicateKey (String.ofList owner.key) owner.source.relative source.relative)

/-- Files with the keys that a style derives for them, each with a key of its own. -/
structure Keyed (style : KeyStyle) (planned : List Planned) : Prop where
  derived : ∀ p ∈ planned, style.derive p.source.relative = .ok p.key
  distinct : (planned.map (·.key)).Nodup

theorem Keyed.append_singleton {style : KeyStyle} {done : List Planned} {p : Planned}
    (hdone : Keyed style done) (hderive : style.derive p.source.relative = .ok p.key)
    (hnew : p.key ∉ done.map (·.key)) : Keyed style (done ++ [p]) where
  derived := by
    intro q hq
    rcases List.mem_append.1 hq with hq | hq
    · exact hdone.derived q hq
    · rw [List.mem_singleton.1 hq]
      exact hderive
  distinct := by
    rw [List.map_append, List.nodup_append]
    refine ⟨hdone.distinct, by simp, ?_⟩
    rintro key hkey _ hlast rfl
    rw [List.map_singleton, List.mem_singleton] at hlast
    exact hnew (hlast ▸ hkey)

theorem Keyed.of_append {style : KeyStyle} {done more : List Planned}
    (h : Keyed style (done ++ more)) : Keyed style done where
  derived p hp := h.derived p (List.mem_append_left _ hp)
  distinct := by
    have hdistinct := h.distinct
    rw [List.map_append] at hdistinct
    exact (List.nodup_append.1 hdistinct).1

/-- The next of some files with keys of their own is not refused. -/
theorem Keyed.not_refusal {style : KeyStyle} {done more : List Planned} {p : Planned}
    (h : Keyed style (done ++ p :: more)) (failure : Failure) :
    ¬Refusal style done p.source failure := by
  have hderive := h.derived p (by simp)
  intro hrefusal
  cases hrefusal with
  | noKey hfault => simp [hderive] at hfault
  | @taken owner howner hkey =>
    have hdistinct := h.distinct
    rw [List.map_append, List.nodup_append] at hdistinct
    have hsame : p.key = owner.key := Except.ok.inj (hderive.symm.trans hkey)
    exact hdistinct.2.2 owner.key (List.mem_map.2 ⟨owner, howner, rfl⟩) p.key (by simp) hsame.symm

/-- A step gives a file its key and goes on with the files behind it, or refuses the file. -/
theorem step {style : KeyStyle} (done : List Planned) (source : Source) (rest : List Source) :
    (∃ key, style.derive source.relative = .ok key ∧ key ∉ done.map (·.key) ∧
      (planFrom style (.ofPlanned done) (source :: rest)).result =
        (planFrom style (.ofPlanned (done ++ [⟨key, source⟩])) rest).result.map
          (⟨key, source⟩ :: ·)) ∨
    ∃ failure, Refusal style done source failure ∧
      (planFrom style (.ofPlanned done) (source :: rest)).result = .error failure := by
  cases hkey : style.keyOf source.relative with
  | error failure =>
    obtain ⟨fault, hderive, rfl⟩ := KeyStyle.keyOf_eq_error_iff.1 hkey
    refine .inr ⟨_, .noKey hderive, ?_⟩
    simp [planFrom, hkey]
  | ok key =>
    have hderive := KeyStyle.keyOf_eq_ok_iff.1 hkey
    cases hclaim : (Registry.ofPlanned done).claim key source.relative with
    | error failure =>
      obtain ⟨owner, howner, rfl, rfl⟩ := Registry.exists_of_claim_ofPlanned_eq_error hclaim
      refine .inr ⟨_, .taken howner hderive, ?_⟩
      simp [planFrom, hkey, hclaim]
    | ok taken =>
      obtain ⟨hnew, rfl⟩ := Registry.claim_ofPlanned_eq_ok_iff.1 hclaim
      refine .inl ⟨key, hderive, hnew, ?_⟩
      simp only [planFrom, hkey, hclaim, Traced.result_bind, Traced.result_ofExcept,
        Traced.result_note, Traced.result_pure, Except.ok_bind]
      cases (planFrom style (.ofPlanned (done ++ [⟨key, source⟩])) rest).result <;> rfl

/-- A plan succeeds with the files of the walk in their order, if each can have a key of its own. -/
theorem planFrom_eq_ok_iff {style : KeyStyle} {done planned : List Planned} {sources : List Source}
    (hdone : Keyed style done) :
    (planFrom style (.ofPlanned done) sources).result = .ok planned ↔
      planned.map (·.source) = sources ∧ Keyed style (done ++ planned) := by
  induction sources generalizing done planned with
  | nil =>
    constructor
    · intro h
      cases h
      exact ⟨rfl, by rwa [List.append_nil]⟩
    · rintro ⟨hsources, _⟩
      rw [List.map_eq_nil_iff.1 hsources]
      rfl
  | cons source rest ih =>
    rcases @step style done source rest with
      ⟨key, hderive, hnew, hrun⟩ | ⟨failure, hrefusal, hrun⟩
    · have hnext : Keyed style (done ++ [⟨key, source⟩]) := hdone.append_singleton hderive hnew
      rw [hrun]
      constructor
      · intro h
        obtain ⟨more, hmore, rfl⟩ := Except.map_eq_ok_iff.1 h
        obtain ⟨hsources, hkeyed⟩ := (ih hnext).1 hmore
        exact ⟨by rw [List.map_cons, hsources], by simpa using hkeyed⟩
      · rintro ⟨hsources, hkeyed⟩
        cases planned with
        | nil => simp at hsources
        | cons p more =>
          obtain ⟨rfl, hrest⟩ := List.cons.inj hsources
          have hkey : p.key = key :=
            Except.ok.inj ((hkeyed.derived p (by simp)).symm.trans hderive)
          subst hkey
          have hmore := (ih hnext).2 ⟨hrest, by simpa using hkeyed⟩
          exact Except.map_eq_ok_iff.2 ⟨more, hmore, rfl⟩
    · rw [hrun]
      constructor
      · intro h
        simp at h
      · rintro ⟨hsources, hkeyed⟩
        cases planned with
        | nil => simp at hsources
        | cons p more =>
          obtain ⟨rfl, _⟩ := List.cons.inj hsources
          exact absurd hrefusal (hkeyed.not_refusal failure)

/-- A plan that fails has given keys to all files before the one that is refused. -/
theorem exists_refusal_of_planFrom {style : KeyStyle} {done : List Planned} {sources : List Source}
    {failure : Failure} (hdone : Keyed style done)
    (h : (planFrom style (.ofPlanned done) sources).result = .error failure) :
    ∃ front source back, sources = front.map (·.source) ++ source :: back ∧
      Keyed style (done ++ front) ∧ Refusal style (done ++ front) source failure := by
  induction sources generalizing done with
  | nil => simp [planFrom] at h
  | cons source rest ih =>
    rcases @step style done source rest with
      ⟨key, hderive, hnew, hrun⟩ | ⟨refused, hrefusal, hrun⟩
    · have hnext : Keyed style (done ++ [⟨key, source⟩]) := hdone.append_singleton hderive hnew
      rw [hrun] at h
      obtain ⟨front, refused, back, hsplit, hkeyed, hrefusal⟩ :=
        ih hnext (Except.map_eq_error_iff.1 h)
      refine ⟨⟨key, source⟩ :: front, refused, back, by simp [hsplit], ?_, ?_⟩
      · simpa using hkeyed
      · simpa using hrefusal
    · rw [hrun] at h
      cases h
      exact ⟨[], source, rest, rfl, by simpa using hdone, by simpa using hrefusal⟩

/-- A plan has the files of the walk in their order, each with the key that is derived for it and
that no other one has. -/
theorem plan_eq_ok_iff {t : FileTree} {cwd : Location} {config : Config} {planned : List Planned} :
    (plan t cwd config).result = .ok planned ↔
      (t.walk cwd config.input config.exclude config.followLinks).result =
        .ok (planned.map (·.source)) ∧ Keyed config.keys planned := by
  have hnone : Keyed config.keys [] := ⟨by simp, by simp⟩
  rw [plan, Traced.result_bind, Except.bind_eq_ok_iff]
  constructor
  · rintro ⟨sources, hwalk, hplan⟩
    obtain ⟨rfl, hkeyed⟩ := (planFrom_eq_ok_iff hnone).1 hplan
    exact ⟨hwalk, hkeyed⟩
  · rintro ⟨hwalk, hkeyed⟩
    exact ⟨_, hwalk, (planFrom_eq_ok_iff hnone).2 ⟨rfl, hkeyed⟩⟩

theorem exists_refusal_of_plan {t : FileTree} {cwd : Location} {config : Config}
    {sources : List Source} {failure : Failure}
    (hwalk : (t.walk cwd config.input config.exclude config.followLinks).result = .ok sources)
    (h : (plan t cwd config).result = .error failure) :
    ∃ front source back, sources = front.map (·.source) ++ source :: back ∧
      Keyed config.keys front ∧ Refusal config.keys front source failure := by
  have hnone : Keyed config.keys [] := ⟨by simp, by simp⟩
  rw [plan, Traced.result_bind, hwalk] at h
  exact exists_refusal_of_planFrom hnone h

/-- A plan succeeds just if every file has a key and no two files have the same. -/
theorem exists_plan_iff {t : FileTree} {cwd : Location} {config : Config} {sources : List Source}
    (hwalk : (t.walk cwd config.input config.exclude config.followLinks).result = .ok sources) :
    (∃ planned, (plan t cwd config).result = .ok planned) ↔
      (∀ s ∈ sources, ∃ key, config.keys.derive s.relative = .ok key) ∧
        sources.Pairwise fun a b =>
          config.keys.derive a.relative ≠ config.keys.derive b.relative := by
  constructor
  · rintro ⟨planned, hplan⟩
    obtain ⟨hsources, hkeyed⟩ := plan_eq_ok_iff.1 hplan
    cases hwalk.symm.trans hsources
    refine ⟨List.forall_mem_map.2 fun p hp => ⟨p.key, hkeyed.derived p hp⟩, ?_⟩
    rw [List.pairwise_map]
    refine List.Pairwise.imp_of_mem ?_ (List.pairwise_map.1 hkeyed.distinct)
    intro p q hp hq hne heq
    rw [hkeyed.derived p hp, hkeyed.derived q hq] at heq
    exact hne (Except.ok.inj heq)
  · rintro ⟨hkeys, hdistinct⟩
    rcases Except.ok_or_error (plan t cwd config).result with hplan | ⟨failure, hfailure⟩
    · exact hplan
    · obtain ⟨front, source, back, rfl, hfront, hrefusal⟩ := exists_refusal_of_plan hwalk hfailure
      cases hrefusal with
      | noKey hfault =>
        obtain ⟨key, hkey⟩ := hkeys source (by simp)
        cases hfault.symm.trans hkey
      | @taken owner howner hkey =>
        have hne := (List.pairwise_append.1 hdistinct).2.2 owner.source
          (List.mem_map.2 ⟨owner, howner, rfl⟩) source (by simp)
        exact absurd ((hfront.derived owner howner).trans hkey.symm) hne

/-! ### Positions in the walk -/

/-- The file at a position cannot be planned: it has no key, or a file before it has the same. -/
inductive RefusedAt (style : KeyStyle) (sources : List Source) (i : Nat) : Failure → Prop
  | noKey {source : Source} {fault : NameFault} (hsource : sources[i]? = some source)
      (h : style.derive source.relative = .error fault) :
      RefusedAt style sources i (.invalidAssetName source.relative fault.message)
  | taken {source owner : Source} {key : List Char} {j : Nat}
      (hsource : sources[i]? = some source) (hj : j < i) (howner : sources[j]? = some owner)
      (h : style.derive source.relative = .ok key) (hsame : style.derive owner.relative = .ok key) :
      RefusedAt style sources i
        (.duplicateKey (String.ofList key) owner.relative source.relative)

theorem RefusedAt.lt_length {style : KeyStyle} {sources : List Source} {i : Nat} {failure : Failure}
    (h : RefusedAt style sources i failure) : i < sources.length := by
  cases h with
  | noKey hsource _ => exact (List.getElem?_eq_some_iff.1 hsource).1
  | taken hsource _ _ _ _ => exact (List.getElem?_eq_some_iff.1 hsource).1

/-- Behind files that all have keys, a position is refused for what the file there is refused for. -/
theorem refusedAt_length_iff {style : KeyStyle} {front : List Planned} (hfront : Keyed style front)
    (source : Source) (back : List Source) {failure : Failure} :
    RefusedAt style (front.map (·.source) ++ source :: back) front.length failure ↔
      Refusal style front source failure := by
  have hhere : (front.map (·.source) ++ source :: back)[front.length]? = some source := by simp
  have hbefore : ∀ j < front.length,
      (front.map (·.source) ++ source :: back)[j]? = front[j]?.map (·.source) := by
    intro j hj
    rw [List.getElem?_append_left (by simpa using hj), List.getElem?_map]
  constructor
  · intro h
    cases h with
    | noKey hsource hfault =>
      cases hhere.symm.trans hsource
      exact .noKey hfault
    | @taken _ owner key j hsource hj howner hkey hsame =>
      cases hhere.symm.trans hsource
      rw [hbefore j hj] at howner
      obtain ⟨p, hp, rfl⟩ := Option.map_eq_some_iff.1 howner
      have hmem := List.mem_of_getElem? hp
      cases (hfront.derived p hmem).symm.trans hsame
      exact .taken hmem hkey
  · intro h
    cases h with
    | noKey hfault => exact .noKey hhere hfault
    | @taken owner howner hkey =>
      obtain ⟨j, hj, rfl⟩ := List.getElem_of_mem howner
      refine .taken hhere hj ?_ hkey (hfront.derived _ howner)
      rw [hbefore j hj, List.getElem?_eq_getElem hj]
      rfl

/-- No file among those with keys of their own is refused. -/
theorem Keyed.not_refusedAt {style : KeyStyle} {front : List Planned} (hfront : Keyed style front)
    {back : List Source} {k : Nat} (hk : k < front.length) (failure : Failure) :
    ¬RefusedAt style (front.map (·.source) ++ back) k failure := by
  obtain ⟨before, p, after, rfl, rfl⟩ : ∃ before p after,
      front = before ++ p :: after ∧ before.length = k :=
    ⟨front.take k, front[k], front.drop (k + 1), by simp, List.length_take_of_le (Nat.le_of_lt hk)⟩
  intro h
  rw [List.map_append, List.map_cons, List.append_assoc, List.cons_append] at h
  exact hfront.not_refusal failure ((refusedAt_length_iff hfront.of_append _ _).1 h)

/-- Positions before the first one that is refused have keys of their own. -/
theorem eq_of_not_refusedAt {style : KeyStyle} {sources : List Source} {i j k : Nat} {a b : Source}
    (hfirst : ∀ m < i, ∀ failure, ¬RefusedAt style sources m failure) (hj : j < i) (hk : k < i)
    (ha : sources[j]? = some a) (hb : sources[k]? = some b)
    (hsame : style.derive a.relative = style.derive b.relative) : j = k := by
  have hlt : ∀ {j k : Nat} {a b : Source}, k < i → sources[j]? = some a → sources[k]? = some b →
      style.derive a.relative = style.derive b.relative → ¬j < k := by
    intro j k a b hk ha hb hsame hjk
    rcases Except.ok_or_error (style.derive b.relative) with ⟨key, hkey⟩ | ⟨fault, hfault⟩
    · exact hfirst k hk _ (.taken hb hjk ha hkey (hsame.trans hkey))
    · exact hfirst k hk _ (.noKey hb hfault)
  exact Nat.le_antisymm (Nat.le_of_not_lt (hlt hj hb ha hsame.symm))
    (Nat.le_of_not_lt (hlt hk ha hb hsame))

/-- The first position that is refused is refused for one failure only. -/
theorem RefusedAt.unique {style : KeyStyle} {sources : List Source} {i : Nat}
    {failure other : Failure} (hfirst : ∀ m < i, ∀ failure, ¬RefusedAt style sources m failure)
    (h : RefusedAt style sources i failure) (hother : RefusedAt style sources i other) :
    failure = other := by
  cases h with
  | noKey hsource hfault =>
    cases hother with
    | noKey hsource' hfault' =>
      cases hsource.symm.trans hsource'
      cases hfault.symm.trans hfault'
      rfl
    | taken hsource' _ _ hkey' _ =>
      cases hsource.symm.trans hsource'
      cases hfault.symm.trans hkey'
  | taken hsource hj howner hkey hsame =>
    cases hother with
    | noKey hsource' hfault' =>
      cases hsource.symm.trans hsource'
      cases hkey.symm.trans hfault'
    | taken hsource' hj' howner' hkey' hsame' =>
      cases hsource.symm.trans hsource'
      cases hkey.symm.trans hkey'
      cases eq_of_not_refusedAt hfirst hj hj' howner howner' (hsame.trans hsame'.symm)
      cases howner.symm.trans howner'
      rfl

/-- A plan fails with what the first refused position of the walk is refused for. -/
theorem plan_eq_error_iff {t : FileTree} {cwd : Location} {config : Config} {sources : List Source}
    {failure : Failure}
    (hwalk : (t.walk cwd config.input config.exclude config.followLinks).result = .ok sources) :
    (plan t cwd config).result = .error failure ↔ ∃ i, RefusedAt config.keys sources i failure ∧
      ∀ k < i, ∀ other, ¬RefusedAt config.keys sources k other := by
  have hfirst : ∀ {failure}, (plan t cwd config).result = .error failure →
      ∃ i, RefusedAt config.keys sources i failure ∧
        ∀ k < i, ∀ other, ¬RefusedAt config.keys sources k other := by
    intro failure h
    obtain ⟨front, source, back, rfl, hfront, hrefusal⟩ := exists_refusal_of_plan hwalk h
    exact ⟨front.length, (refusedAt_length_iff hfront source back).2 hrefusal,
      fun k hk other => hfront.not_refusedAt hk other⟩
  constructor
  · exact hfirst
  · rintro ⟨i, hi, hbefore⟩
    rcases Except.ok_or_error (plan t cwd config).result with ⟨planned, hplan⟩ | ⟨other, hother⟩
    · obtain ⟨hsources, hkeyed⟩ := plan_eq_ok_iff.1 hplan
      cases hwalk.symm.trans hsources
      have hlength : i < planned.length := by simpa using hi.lt_length
      rw [← List.append_nil (planned.map (·.source))] at hi
      exact absurd hi (hkeyed.not_refusedAt hlength failure)
    · obtain ⟨j, hj, hbeforej⟩ := hfirst hother
      have hij : i = j := by
        refine Nat.le_antisymm (Nat.le_of_not_lt fun hlt => ?_) (Nat.le_of_not_lt fun hlt => ?_)
        · exact hbefore j hlt other hj
        · exact hbeforej i hlt failure hi
      subst hij
      rw [hother, hi.unique hbefore hj]

/-! ### Names that are no texts -/

/-- A path with a name that is no text has no key in any style. -/
theorem derive_ne_ok_of_not_text {style : KeyStyle} {relative : Path} {n : Name}
    (hn : .name n ∈ relative.components) (htext : Text.Utf8.decode? n.bytes = none)
    (key : List Char) : style.derive relative ≠ .ok key := by
  intro h
  rw [KeyStyle.derive, Except.bind_eq_ok_iff] at h
  obtain ⟨normalized, hnormalized, _⟩ := h
  rw [Path.normalize] at hnormalized
  cases hplain : plainTexts relative.components with
  | error fault => simp [hplain] at hnormalized
  | ok texts =>
    obtain ⟨text, hsome⟩ := isText_of_mem_plainTexts hplain hn
    simp [htext] at hsome

/-- A plan succeeds just if every file of the walk has a key and no two have the same; the plan has
the files in the order of the walk, each with its key. It fails with what the first refused position
is refused for, a clash having one earlier owner. A name that is no text fails every policy. -/
theorem plan_of_walk {t : FileTree} {cwd : Location} {config : Config} {sources : List Source}
    (hwalk : (t.walk cwd config.input config.exclude config.followLinks).result = .ok sources) :
    ((∃ planned, (plan t cwd config).result = .ok planned) ↔
      (∀ s ∈ sources, ∃ key, config.keys.derive s.relative = .ok key) ∧
        sources.Pairwise fun a b =>
          config.keys.derive a.relative ≠ config.keys.derive b.relative) ∧
    (∀ planned, (plan t cwd config).result = .ok planned →
      planned.map (·.source) = sources ∧
        (∀ p ∈ planned, config.keys.derive p.source.relative = .ok p.key) ∧
        (planned.map (·.key)).Nodup) ∧
    (∀ failure, (plan t cwd config).result = .error failure ↔
      ∃ i, RefusedAt config.keys sources i failure ∧
        (∀ k < i, ∀ other, ¬RefusedAt config.keys sources k other)) ∧
    (∀ i, (∀ k < i, ∀ other, ¬RefusedAt config.keys sources k other) →
      ∀ j < i, ∀ k < i, ∀ a b, sources[j]? = some a → sources[k]? = some b →
        config.keys.derive a.relative = config.keys.derive b.relative → j = k) ∧
    (∀ s ∈ sources, ∀ n, .name n ∈ s.relative.components → Text.Utf8.decode? n.bytes = none →
      ∀ policy, ∃ failure,
        (plan t cwd { config with keys := { config.keys with policy := policy } }).result =
          .error failure) := by
  refine ⟨exists_plan_iff hwalk, ?_, fun failure => plan_eq_error_iff hwalk, ?_, ?_⟩
  · intro planned hplan
    obtain ⟨hsources, hkeyed⟩ := plan_eq_ok_iff.1 hplan
    cases hwalk.symm.trans hsources
    exact ⟨rfl, hkeyed.derived, hkeyed.distinct⟩
  · intro i hfirst j hj k hk a b ha hb hsame
    exact eq_of_not_refusedAt hfirst hj hk ha hb hsame
  · intro s hs n hn htext policy
    rcases Except.ok_or_error (plan t cwd
      { config with keys := { config.keys with policy := policy } }).result with
      ⟨planned, hplan⟩ | hfailure
    · obtain ⟨hsources, hkeyed⟩ := plan_eq_ok_iff.1 hplan
      cases hwalk.symm.trans hsources
      obtain ⟨p, hp, rfl⟩ := List.mem_map.1 hs
      exact absurd (hkeyed.derived p hp) (derive_ne_ok_of_not_text hn htext _)
    · exact hfailure

def nameD : Name := ⟨[0x64], by decide⟩

/-- A directory `d` with the files `a.b` and `a_b`. -/
def clashingTree : FileTree where
  entries :=
    [([nameD], .directory 0o755),
      ([⟨[0x61, 0x2e, 0x62], by decide⟩, nameD], .file 0o644 []),
      ([⟨[0x61, 0x5f, 0x62], by decide⟩, nameD], .file 0o644 [])]
  distinct := by decide
  rooted := by simp

theorem plan_clashingTree :
    (clashingTree.walk [] (.ofString "d") [] false).result =
      .ok [⟨.ofString "d/a.b", .ofString "a.b"⟩, ⟨.ofString "d/a_b", .ofString "a_b"⟩] ∧
    (plan clashingTree [] { Config.standard with input := .ofString "d" }).result =
      .error (.duplicateKey "std_a_b" (.ofString "a.b") (.ofString "a_b")) := by
  have hwalk : (clashingTree.walk [] (.ofString "d") [] false).result =
      .ok [⟨.ofString "d/a.b", .ofString "a.b"⟩, ⟨.ofString "d/a_b", .ofString "a_b"⟩] := by cbv
  have hdot : KeyStyle.standard.derive (.ofString "a.b") = .ok "std_a_b".toList := by cbv
  have hline : KeyStyle.standard.derive (.ofString "a_b") = .ok "std_a_b".toList := by cbv
  have hspec := @plan_of_walk _ _ { Config.standard with input := .ofString "d" } _ hwalk
  refine ⟨hwalk, (hspec.2.2.1 _).2 ⟨1, ?_, ?_⟩⟩
  · rw [← @String.ofList_toList "std_a_b"]
    exact .taken (show _ = some (⟨.ofString "d/a_b", .ofString "a_b"⟩ : Source) from rfl)
      Nat.zero_lt_one (show _ = some (⟨.ofString "d/a.b", .ofString "a.b"⟩ : Source) from rfl)
      hline hdot
  · intro k hk other hother
    obtain rfl := Nat.lt_one_iff.1 hk
    cases hother with
    | noKey hsource hfault =>
      cases hsource
      cases hdot.symm.trans hfault
    | taken _ hj => exact absurd hj (Nat.not_lt_zero _)

end Job

end AssetBake
