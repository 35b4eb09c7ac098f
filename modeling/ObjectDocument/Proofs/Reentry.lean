import ObjectDocument.Mapper.Setup
import ObjectDocument.Proofs.Stages

/-!
# Conversions within conversions

A converter, and the reading of a field, may take up conversions of their own. Whatever they ask
for, each is taken up deeper than the one it is made in and no deeper than one level below the
limit (`convertAt_events`), so that only so many can be within one another. Where depths are
counted up in the words of the host, and nothing but their test stops a conversion from going on,
the conversions are the same (`countedStage_eq`): no word overflows, and no call is one too many.
A converter that hands its input back to the mapper runs into the limit (`Resubmits`).
-/

namespace ObjectDocument

namespace Traced
variable {α β : Type}

def Between (lo hi : Nat) (x : Traced α) : Prop :=
  ∀ target route k, Event.dispatched target route k ∈ x.events → lo ≤ k ∧ k ≤ hi

namespace Between
variable {lo hi : Nat} {x : Traced α}

theorem ok (a : α) : (ok a).Between lo hi := nofun

theorem error (e : Failure) : (error e : Traced α).Between lo hi := nofun

theorem fieldAbsent (entity field : String) :
    (emit (.fieldAbsent entity field)).Between lo hi := by
  intro target route k h
  cases List.mem_singleton.1 h

theorem bind {f : α → Traced β} (h : x.Between lo hi) (hf : ∀ a, (f a).Between lo hi) :
    (x >>= f).Between lo hi := by
  obtain ⟨events, result⟩ := x
  intro target route k hk
  cases result with
  | error e => exact h target route k hk
  | ok a =>
    rcases List.mem_append.1 hk with hk | hk
    · exact h target route k hk
    · exact hf a target route k hk

theorem under {segment : String} (h : x.Between lo hi) : (x.under segment).Between lo hi := h

theorem onFailure {name : String} {r : Route} (h : x.Between lo hi) :
    (x.onFailure (.failed name r)).Between lo hi := by
  obtain ⟨events, result⟩ := x
  intro target route k hk
  cases result with
  | ok a => exact h target route k hk
  | error e =>
    rcases List.mem_append.1 hk with hk | hk
    · exact h target route k hk
    · cases List.mem_singleton.1 hk

theorem stepwise (lo hi : Nat) : Stepwise (Between lo hi) := ⟨ok, fun _ => error _, bind, under⟩

theorem mono {lo' : Nat} (h : x.Between lo hi) (hlo : lo' ≤ lo) : x.Between lo' hi := by
  intro target route k hk
  have hb := h target route k hk
  omega

theorem run {convert : Convert} (h : ∀ source target, (convert source target).Between lo hi)
    (dialogue : Dialogue α) : (dialogue.run convert).Between lo hi := by
  induction dialogue with
  | done result => exact nofun
  | ask source target next ih =>
    intro t r k hk
    rcases List.mem_append.1 hk with hk | hk
    · exact h source target t r k hk
    · exact ih _ t r k hk

end Between

end Traced

structure Stage.Between (lo hi : Nat) (stage : Stage) : Prop where
  encode : ∀ x, (stage.encode x).Between lo hi
  decode : ∀ d target, (stage.decode d target).Between lo hi

namespace Mapper
variable {m : Mapper} {stage : Stage} {lo hi : Nat}

/-! ## One stage -/

theorem convertAt_events (h : stage.Between lo hi) (source : Option Datum) (target : Descriptor) :
    ∃ rest, (m.convertAt stage source target).events =
        .dispatched target.name (m.route (source.map Datum.present) target) stage.depth :: rest ∧
      ∀ t r k, .dispatched t r k ∈ rest → lo ≤ k ∧ k ≤ hi := by
  refine ⟨_, rfl, ?_⟩
  refine Traced.Between.onFailure ?_
  split
  · exact .ok _
  · exact .ok _
  · exact .ok _
  · exact .ok _
  · exact .ok _
  · exact (h.encode _).bind fun d => .ok _
  · split
    · exact (h.decode _ _).bind fun x => .ok _
    · exact .error _
  · exact .error _

theorem convertAt_between (h : stage.Between lo hi) (hlo : lo ≤ stage.depth)
    (hhi : stage.depth ≤ hi) (source : Option Datum) (target : Descriptor) :
    (m.convertAt stage source target).Between lo hi := by
  obtain ⟨rest, he, hrest⟩ := convertAt_events (m := m) h source target
  intro t r k hk
  rw [he] at hk
  rcases List.mem_cons.1 hk with hk | hk
  · cases hk
    exact ⟨hlo, hhi⟩
  · exact hrest t r k hk

theorem encode_between {below : Option Stage}
    (h : ∀ stage, below = some stage →
      m.Coherent stage ∧ stage.Between lo hi ∧ lo ≤ stage.depth ∧ stage.depth ≤ hi) (x : Datum) :
    (m.encode below x).Between lo hi := by
  cases below with
  | none =>
    simp only [encode]
    split
    · exact .error _
    · split
      · exact .error _
      · exact .error _
  | some stage =>
    obtain ⟨_, hs, hlo, hhi⟩ := h stage rfl
    simp only [encode]
    split
    · exact .run (convertAt_between hs hlo hhi) _
    · split
      · exact encodeFields_stepwise (Traced.Between.stepwise lo hi) hs.encode _ _ _
      · exact .error _

theorem decode_between {below : Option Stage}
    (h : ∀ stage, below = some stage →
      stage.Between lo hi ∧ lo ≤ stage.depth ∧ stage.depth ≤ hi) (d : Document)
    (target : Descriptor) : (m.decode below d target).Between lo hi := by
  cases below with
  | none => exact .error _
  | some stage =>
    obtain ⟨hs, hlo, hhi⟩ := h stage rfl
    have hask := convertAt_between (m := m) hs hlo hhi
    simp only [decode]
    split
    · exact .run hask _
    · split
      · refine (Traced.Between.stepwise lo hi).foldlM fun x field => ?_
        rw [decodeField]
        split
        · exact (Traced.Between.run hask _).under
        · split
          · exact .error _
          · exact (Traced.Between.fieldAbsent _ _).bind fun _ => .ok _
      · exact .error _

/-! ## All stages -/

theorem stage_between {room : Nat} (hroom : room ≤ m.settings.maxDepth + 1) :
    (m.stage room).Between (m.settings.maxDepth + 2 - room) (m.settings.maxDepth + 1) := by
  induction room with
  | zero => exact ⟨encode_between nofun, decode_between nofun⟩
  | succ room ih =>
    have hbelow : ∀ stage, some (m.stage room) = some stage →
        stage.Between (m.settings.maxDepth + 2 - (room + 1)) (m.settings.maxDepth + 1) ∧
          m.settings.maxDepth + 2 - (room + 1) ≤ stage.depth ∧
            stage.depth ≤ m.settings.maxDepth + 1 := by
      intro stage he
      cases he
      have hb := ih (by omega)
      have hdepth : (m.stage room).depth = m.settings.maxDepth + 1 - room :=
        m.stage_depth (by omega)
      refine ⟨⟨fun x => (hb.encode x).mono (by omega), fun d t => (hb.decode d t).mono (by omega)⟩,
        by omega, by omega⟩
    refine ⟨encode_between fun stage he => ?_, decode_between hbelow⟩
    obtain rfl : m.stage room = stage := Option.some.inj he
    exact ⟨m.coherent_stage room, hbelow _ rfl⟩

theorem convertAt_stage_events {room : Nat} (hroom : room ≤ m.settings.maxDepth + 1)
    (source : Option Datum) (target : Descriptor) :
    ∃ rest, (m.convertAt (m.stage room) source target).events =
        .dispatched target.name (m.route (source.map Datum.present) target)
          (m.settings.maxDepth + 1 - room) :: rest ∧
      ∀ t r k, .dispatched t r k ∈ rest →
        m.settings.maxDepth + 1 - room < k ∧ k ≤ m.settings.maxDepth + 1 := by
  obtain ⟨rest, he, hrest⟩ := convertAt_events (m := m) (stage_between hroom) source target
  rw [m.stage_depth hroom] at he
  refine ⟨rest, he, fun t r k hk => ?_⟩
  have hb := hrest t r k hk
  omega

/-! ## Chains of conversions -/

structure Call where
  depth : Nat
  source : Option Datum
  target : Descriptor

def Call.events (m : Mapper) (c : Call) : List Event := (m.scope c.depth c.source c.target).events

/-- `Nested n c` says that `n` conversions are one within the other, the outermost of which is `c`:
the events of each are among those that come after the first event of the one around it. -/
inductive Nested (m : Mapper) : Nat → Call → Prop where
  | single (c : Call) : Nested m 1 c
  | within {n : Nat} {outer inner : Call} : inner.events m <:+: (outer.events m).tail →
      Nested m n inner → Nested m (n + 1) outer

theorem Nested.length_le {n : Nat} {c : Call} (h : m.Nested n c) :
    n ≤ m.settings.maxDepth + 1 - c.depth + 1 := by
  induction h with
  | single c => omega
  | @within n outer inner hin _ ih =>
    -- the first event of the inner conversion is one of those that are deeper than the outer
    obtain ⟨rest, he, hrest⟩ :=
      convertAt_stage_events (m := m) (Nat.sub_le _ outer.depth) outer.source outer.target
    obtain ⟨_, hfirst, -⟩ :=
      convertAt_stage_events (m := m) (Nat.sub_le _ inner.depth) inner.source inner.target
    have hsub := hin.subset
    rw [Call.events, Call.events, scope, scope, he, hfirst] at hsub
    have hdeep := hrest _ _ _ (hsub List.mem_cons_self)
    omega

/-! ## Counting up -/

/-- The mapper at a depth that is counted up from call to call in words of the host. Nothing but the
test of the depth ends the calls; `stuck` is what there is when no more calls are left or a depth
has no word. -/
def countedStage (m : Mapper) (stuck : Stage) : (calls : Nat) → (depth : Integer .usize) → Stage
  | 0, _ => stuck
  | calls + 1, depth =>
    let below : Option Stage :=
      if depth.val ≤ m.settings.maxDepth then
        match Integer.ofInt? .usize (depth.val + 1) with
        | some next => some (countedStage m stuck calls next)
        | none => some stuck
      else none
    { depth := depth.val.toNat
      encode := m.encode below
      decode := m.decode below
      encodeEntity := m.encodeEntity below
      handed := below.map m.convertAt }

theorem countedStage_eq (hmax : m.settings.maxDepth < IntType.usize.max) (stuck : Stage)
    {calls room : Nat} {depth : Integer .usize} (hcalls : room + 1 ≤ calls)
    (hdepth : depth.val + room = m.settings.maxDepth + 1) :
    m.countedStage stuck calls depth = m.stage room := by
  induction room generalizing calls depth with
  | zero =>
    obtain ⟨calls, rfl⟩ : ∃ n, calls = n + 1 := ⟨calls - 1, by omega⟩
    have hlt : ¬ depth.val ≤ m.settings.maxDepth := by omega
    have hval : depth.val.toNat = m.settings.maxDepth + 1 := by omega
    simp only [countedStage, stage, if_neg hlt, hval, Option.map_none]
  | succ room ih =>
    obtain ⟨calls, rfl⟩ : ∃ n, calls = n + 1 := ⟨calls - 1, by omega⟩
    have hle : depth.val ≤ m.settings.maxDepth := by omega
    have hval : depth.val.toNat = m.settings.maxDepth - room := by omega
    have hholds : IntType.usize.Holds (depth.val + 1) := by
      have hmin := depth.holds.1
      exact ⟨by omega, by omega⟩
    have hnext : Integer.ofInt? .usize (depth.val + 1) = some ⟨depth.val + 1, hholds⟩ :=
      Integer.ofInt?_eq_some_iff.2 rfl
    have hsum : (⟨depth.val + 1, hholds⟩ : Integer .usize).val + room =
        m.settings.maxDepth + 1 := by
      dsimp only
      omega
    have hbelow := ih (Nat.le_of_succ_le_succ hcalls) hsum
    simp only [countedStage, stage, if_pos hle, hval, hnext, hbelow, Option.map_some]

end Mapper

/-! ## Input handed back -/

/-- Whether a dialogue, whatever it is answered before, comes to ask for a conversion and fails as
that conversion does. -/
inductive Dialogue.Resubmits {α : Type} (source : Option Datum) (target : Descriptor) :
    Dialogue α → Prop where
  | ask {next : Except Failure Outcome → Dialogue α} :
      (∀ e, next (.error e) = .error e) → Resubmits source target (.ask source target next)
  | later {s : Option Datum} {t : Descriptor} {next : Except Failure Outcome → Dialogue α} :
      (∀ answer, Resubmits source target (next answer)) →
      Resubmits source target (.ask s t next)

namespace Dialogue
variable {α β : Type} {source : Option Datum} {target : Descriptor}

theorem Resubmits.bind {x : Dialogue α} {f : α → Dialogue β} (h : x.Resubmits source target) :
    (x >>= f).Resubmits source target := by
  induction h with
  | ask hnext =>
    refine .ask fun e => ?_
    rw [hnext]
    rfl
  | later _ ih => exact .later ih

theorem Resubmits.run {x : Dialogue α} (h : x.Resubmits source target) {convert : Convert}
    {e : Failure} (he : (convert source target).result = .error e) :
    (x.run convert).result = .error e := by
  induction h with
  | ask hnext => simp [Dialogue.run, he, hnext, Traced.error]
  | later _ ih => exact ih _

end Dialogue

namespace Catalogue
variable {Γ : Catalogue}

theorem resubmits_toDocument (x : Datum) :
    (Γ.toDocument x).Resubmits (some x) (Γ.descriptor .document) :=
  .ask fun _ => rfl

theorem resubmits_fromDocument (t : Ty) (d : Document) :
    (Γ.fromDocument t d).Resubmits (some (.document d)) (Γ.descriptor t) :=
  .ask fun _ => rfl

end Catalogue

namespace Mapper
variable {m : Mapper}

def limitPassed (m : Mapper) : Failure := .here (.depthExceeded m.settings.maxDepth)

theorem resubmitted_object {c : Converter} {x : Datum} {target : Descriptor}
    (hroute : m.route (some x.present) target = .encode)
    (hc : m.converters.find? (m.types.typeOf x.present) = some c) (ht : x.present.ty = c.entity)
    (h : (c.toDocument x.present).Resubmits (some x.present) target) (room : Nat) :
    (m.convertAt (m.stage room) (some x) target).result = .error m.limitPassed := by
  have hencode : ((m.stage room).encode x.present).result = .error m.limitPassed := by
    induction room with
    | zero =>
      simp only [stage, encode, hc]
      rfl
    | succ room ih =>
      -- the converter asks the stage below, which encodes the same object
      have hask : (m.convertAt (m.stage room) (some x.present) target).result =
          .error m.limitPassed := by
        rw [convertAt_encode (by rwa [Datum.present_present]), Datum.present_present, ih]
        rfl
      simp only [stage, encode, hc, Converter.encode, if_pos ht]
      exact h.run hask
  rw [convertAt_encode hroute, hencode]
  rfl

theorem resubmitted_document {c : Converter} {d : Document} {target : Descriptor}
    (hroute : m.route (some (.document d)) target = .decode)
    (hc : m.converters.find? target = some c)
    (h : (c.fromDocument d).Resubmits (some (.document d)) target) (room : Nat) :
    (m.convertAt (m.stage room) (some (.document d)) target).result = .error m.limitPassed := by
  have hdecode : ((m.stage room).decode d target).result = .error m.limitPassed := by
    induction room with
    | zero => rfl
    | succ room ih =>
      have hask : (m.convertAt (m.stage room) (some (.document d)) target).result =
          .error m.limitPassed := by
        rw [convertAt_decode hroute, ih]
        rfl
      simp only [stage, decode, hc]
      exact h.run hask
  rw [convertAt_decode hroute, hdecode]
  rfl

/-- Conversions within conversions are bounded by the limit, whatever converters ask for. Each is
made deeper than the one it is made in and at most one level below the limit, so no more are within
one another than there are levels; depths that are counted up never overflow, and a converter that
hands its input back ends at the limit. -/
theorem reentry_bounded (hmax : m.settings.maxDepth < IntType.usize.max) :
    (∀ depth ≤ m.settings.maxDepth + 1, ∀ source target, ∃ rest,
      (m.scope depth source target).events =
          .dispatched target.name (m.route (source.map Datum.present) target) depth :: rest ∧
        ∀ t r k, .dispatched t r k ∈ rest → depth < k ∧ k ≤ m.settings.maxDepth + 1) ∧
    (∀ n c, m.Nested n c → n ≤ m.settings.maxDepth + 2) ∧
    (∀ stuck, m.convertAt (m.countedStage stuck (m.settings.maxDepth + 2) (.zero .usize)) =
      m.convert) ∧
    (∀ c x target, m.route (some x.present) target = .encode →
      m.converters.find? (m.types.typeOf x.present) = some c → x.present.ty = c.entity →
      (c.toDocument x.present).Resubmits (some x.present) target →
      (m.convert (some x) target).result = .error m.limitPassed) ∧
    ∀ c d target, m.route (some (.document d)) target = .decode →
      m.converters.find? target = some c →
      (c.fromDocument d).Resubmits (some (.document d)) target →
      (m.convert (some (.document d)) target).result = .error m.limitPassed := by
  refine ⟨fun depth hdepth source target => ?_, fun n c hn => ?_, fun stuck => ?_,
    fun c x target hroute hc ht h => resubmitted_object hroute hc ht h _,
    fun c d target hroute hc h => resubmitted_document hroute hc h _⟩
  · obtain ⟨rest, he, hrest⟩ := convertAt_stage_events (m := m) (Nat.sub_le _ depth) source target
    have hroom : m.settings.maxDepth + 1 - (m.settings.maxDepth + 1 - depth) = depth := by omega
    rw [hroom] at he hrest
    exact ⟨rest, he, hrest⟩
  · have hle := hn.length_le
    omega
  · have hsum : (Integer.zero .usize).val + (m.settings.maxDepth + 1 : Nat) =
        m.settings.maxDepth + 1 := by simp [Integer.zero]
    rw [countedStage_eq hmax stuck (Nat.le_refl _) hsum]
    rfl

/-! An echo has no visible structure; its converter hands everything back to the mapper, and would
add an entry to the document it gets. -/

def echoDecl : HostDecl := { HostDecl.unstructured "Echo" with reading := .throughMapper }

def echoTypes : Catalogue := ⟨[("Echo", .host echoDecl)], .quiet⟩

def echo : Datum := .record "Echo" []

def echoConverter : Converter where
  entity := .named "Echo"
  toDocument x := do pure ((← echoTypes.toDocument x).insert "again" .null)
  fromDocument := echoTypes.fromDocument (.named "Echo")

def echoMapper : Mapper :=
  ((Setup.empty echoTypes).steps [.converter echoConverter, .settings ⟨3, true⟩]).2.mapper

theorem reentry_bounded_echo :
    (echoMapper.toDocument (.boxed echo)).result = .error (.here (.depthExceeded 3)) ∧
      (echoMapper.fromDocument (.named "Echo") .empty).result =
        .error (.here (.depthExceeded 3)) := by
  have hmax : (echoMapper.settings.maxDepth : Int) < IntType.usize.max := by decide
  obtain ⟨-, -, -, hto, hfrom⟩ := reentry_bounded hmax
  constructor
  · refine (Catalogue.resubmits_toDocument (.boxed echo)).run ?_
    exact hto echoConverter (.boxed echo) _ rfl rfl rfl (Catalogue.resubmits_toDocument echo).bind
  · refine (Catalogue.resubmits_fromDocument (.named "Echo") .empty).run ?_
    exact hfrom echoConverter .empty _ rfl rfl (Catalogue.resubmits_fromDocument _ _)

end Mapper

end ObjectDocument
