import ScMachine.AgentCommands
import ScMachine.CreationSteps
import ScMachine.IteratorsAtRest
import ScMachine.LinkContents

/-! Setting a system identifier (`sc_helper.c`), and what a call that fails leaves behind. -/
namespace ScMachine.Store
open ScMachine.StateExcept ScMachine.Runs ScMachine.Template

def scTypeArcCommonConst : ScType := scTypeArcCommon ||| scTypeConst

/-- The loop over the links that are found: one of them is a system identifier already. -/
def identifierUsed (c : Cells) (ctx : ScContext) (nrelSystemIdentifier : ScAddr) (results : List ScAddr) :
    Bool :=
  results.any fun link => !((iterator5 c ctx (.aaf 0 scTypeArcCommonConst link
    ⟨scTypeEdgeAccessConstPosPerm, .addr nrelSystemIdentifier⟩)).getD []).isEmpty

/-- `sc_helper_set_system_identifier`; the iterators are those of a store at rest. -/
def scHelperSetSystemIdentifier (env : ScEnv) (ctx : ScContext) (nrelSystemIdentifier addr : ScAddr)
    (data : List ScByte) (hlen : data.length < 4294967296) : StoreM ScResult := do
  let stream := streamOf data hlen
  let (r, results, _) ← scStorageFindLinksWithContent env ctx stream
  let c := (← get).cell
  if r = .ok ∧ identifierUsed c ctx nrelSystemIdentifier results then return .errorInvalidParams
  let idtfAddr ← scStorageLinkNew env ctx true
  if (← scStorageSetLinkContent env ctx idtfAddr stream) ≠ .ok then return .error
  let arcAddr ← scStorageArcNew env ctx scTypeArcCommonConst addr idtfAddr
  if arcAddr = ScAddr.empty then return .error
  let arcAddr ← scStorageArcNew env ctx scTypeEdgeAccessConstPosPerm nrelSystemIdentifier arcAddr
  if arcAddr = ScAddr.empty then return .error
  return .ok

/-- What was there is as it was, and `new` is all that is there besides. -/
structure OnlyNew (st : ScStorage) (new : Set ScAddr) (s : ScStorage) : Prop where
  live : ∀ x, Live s.cell x ↔ Live st.cell x ∨ x ∈ new
  fresh : ∀ x ∈ new, ¬ Live st.cell x
  same : ∀ x, Live st.cell x → SameElement st s x

/-- A new link with the content `data`, which alone is new in the content index. -/
structure ContentOf (env : ScEnv) (ctx : ScContext) (data : List ScByte) (st : ScStorage) (link : ScAddr)
    (s : ScStorage) : Prop where
  type : (s.cell link).type = (contentCell (env.checksum data) data (linkCell ctx true)).type
  content : (s.cell link).data = (contentCell (env.checksum data) data (linkCell ctx true)).data
  index : s.fileMemory = storeFm link (env.checksum data) data st.fileMemory

section
variable {env : ScEnv} {ctx : ScContext} {st s s' : ScStorage} {new : Set ScAddr} {a link x y beg end_ : ScAddr}
  {type : ScType} {levels : ScAccessLevels} {data : List ScByte} {el : ScElement} {fm : FileMemory}

theorem OnlyNew.of_unlocked (h : s.unlocked = st.unlocked) : OnlyNew st ∅ s := by
  have hcell := cell_of_unlocked h
  refine ⟨fun x => ?_, fun _ hx => hx.elim, fun x _ => sameElement_of_eq (by rw [hcell])⟩
  rw [hcell]
  exact (or_iff_left (Set.notMem_empty x)).symm

theorem SameElement.trans (h : SameElement st s x) (h' : SameElement s s' x) : SameElement st s' x := by
  refine ⟨h'.type.trans h.type, h'.accessLevels.trans h.accessLevels, fun hno => ?_⟩
  exact (h'.data (h.liveArc.not.mpr hno)).trans (h.data hno)

theorem OnlyNew.grown {more : Set ScAddr} (h : OnlyNew st new s) (hg : GrownBy s more s') :
    OnlyNew st (new ∪ more) s' := by
  have hdead {x : ScAddr} (hx : x ∈ more) : ¬ Live s.cell x := fun hl => type_of_live hl (hg.free x hx)
  have hsame {x : ScAddr} (hx : Live s.cell x) : SameElement s s' x :=
    (hg.others x fun hin => hdead hin hx).same
  refine ⟨fun x => ?_, ?_, fun x hx => ?_⟩
  · by_cases hx : x ∈ more
    · exact iff_of_true (hg.live x hx) (Or.inr (Or.inr hx))
    · rw [(hg.others x hx).same.live, h.live]
      simp [hx]
  · rintro x (hx | hx)
    · exact h.fresh x hx
    · exact fun hl => hdead hx ((h.live x).mpr (Or.inl hl))
  · exact (h.same x hx).trans (hsame ((h.live x).mpr (Or.inl hx)))

/-- One of the new elements is written. -/
theorem OnlyNew.written (h : OnlyNew st new s) (ha : a ∈ new) (hw : CellUpdated s a el fm s')
    (hlive : Live s'.cell a) : OnlyNew st new s' := by
  have hsame {x : ScAddr} (hx : x ≠ a) : SameElement s s' x :=
    sameElement_of_eq (by rw [hw.cell, Function.update_of_ne hx])
  refine ⟨fun x => ?_, h.fresh, fun x hx => ?_⟩
  · by_cases hxa : x = a
    · subst hxa
      exact iff_of_true hlive (Or.inr ha)
    · rw [(hsame hxa).live, h.live]
  · exact (h.same x hx).trans (hsame fun he => h.fresh x (he ▸ ha) hx)

theorem ContentOf.grown (h : ContentOf env ctx data st link s) (hlive : Live s.cell link)
    (harc : ¬ LiveArc s.cell link) (hg : GrownBy s new s') : ContentOf env ctx data st link s' := by
  have hsame := (hg.others link fun hn => type_of_live hlive (hg.free link hn)).same
  exact ⟨hsame.type.trans h.type, (hsame.data harc).trans h.content, hg.fileMemory.trans h.index⟩

theorem linkCell_kind (ctx : ScContext) :
    (linkCell ctx true).isLink = true ∧ (linkCell ctx true).type &&& scTypeArcMask = 0 := by
  have htype : (linkCell ctx true).type = scTypeLink ||| scTypeConst := rfl
  unfold ScElement.isLink
  rw [htype]
  decide

/-- A link that may be written takes the content of a stream that can be read. -/
theorem setLinkContent_live (hok : StoreOk env.thread st) (hlive : Live st.cell a)
    (hwrite : CanWrite ctx st.cell a) (hlink : (st.cell a).isLink = true) (stream : ScStream)
    (hread : stream.readable = true) :
    IfReturns (scStorageSetLinkContent env ctx a stream) (fun r _ => r = .ok) st := by
  have h := holds_start env.thread st hok.wf.1 hok.wf.2
  have hloaded : Loaded st a := hok.cells.loaded hok.wf.2 (type_of_live hlive)
  unfold scStorageSetLinkContent
  rw [IfReturns, wp_bind]
  apply wp_mono (elementLock_wp h a) _ (fun _ _ => trivial)
  rintro r s1 ⟨hu1, hl, h1⟩
  obtain rfl : r = true := hl.mpr hloaded
  have hcell := cell_of_unlocked hu1
  simp only [Bool.not_true, Bool.false_eq_true, if_false]
  rw [wp_bind]
  unfold setLockedLinkContent
  have hvalid : ¬ (!scElementIsValid (s1.cell a)) = true := by
    rw [live_iff_valid, hcell]
    exact not_not_intro hlive
  have hcan : ¬ (!scAccessLvlCheckWrite ctx.accessLevels (s1.cell a).accessLevels) = true := by
    rw [hcell]
    unfold CanWrite at hwrite
    simp [hwrite]
  have hkind : ¬ (!(s1.cell a).isLink) = true := by
    rw [hcell]
    simp [hlink]
  rw [wp_bind, wp_readCell, if_neg hvalid, if_neg hcan, if_neg hkind]
  apply ifReturns_skip
  intro _ s2
  unfold scLinkCalculateChecksum
  rw [if_pos (Or.inr hread)]
  apply ifReturns_skip
  intro _ s3
  apply ifReturns_skip
  intro _ s4
  apply ifReturns_skip
  intro _ s5
  rfl

/-- A new link, if there is one, has taken the identifier as its content when the call goes on. -/
theorem identifierLink_rule (hok : StoreOk env.thread s) (hs : s.unlocked = st.unlocked)
    (stream : ScStream) (hread : stream.readable = true) {f : ScAddr → StoreM ScResult}
    {Q : ScResult → ScStorage → Prop}
    (hnone : ∀ s', s'.unlocked = st.unlocked → Q .error s')
    (hmade : ∀ link s', StoreOk env.thread s' → OnlyNew st {link} s' → Live s'.cell link →
      ¬ LiveArc s'.cell link → ContentOf env ctx stream.bytes st link s' → IfReturns (f link) Q s') :
    IfReturns (do
      let link ← scStorageLinkNew env ctx true
      if (← scStorageSetLinkContent env ctx link stream) ≠ .ok then return .error
      f link) Q s := by
  have hcall := storeOk_call (f := scStorageLinkNew env ctx true) (.linkNew ctx true) rfl trivial hok
  have hnew : IfReturns (scStorageLinkNew env ctx true) _ s :=
    newElement_returns (holds_start env.thread s hok.wf.1 hok.wf.2) hok.cells ctx _
  rw [IfReturns, wp_bind]
  apply wp_mono (wp_and hcall hnew) _ (fun _ _ => trivial)
  rintro link s1 ⟨hok1, hcase⟩
  rw [wp_bind]
  have hcall1 := storeOk_call (f := scStorageSetLinkContent env ctx link stream)
    (.setLinkContent ctx link stream) rfl trivial hok1
  have heffect := setLinkContent_effect (holds_start env.thread s1 hok1.wf.1 hok1.wf.2) hok1.cells ctx
    link stream
  rcases hcase with ⟨hu, rfl⟩ | hcr
  · -- no link: the empty address has no content to set
    apply wp_mono heffect _ (fun _ _ => trivial)
    intro r s2 hout
    cases hout with
    | failed _ _ hr hu2 =>
      rw [if_pos hr]
      exact hnone s2 (hu2.trans (hu.trans hs))
    | set _ hlive _ _ _ => exact absurd hlive hok1.cells.arcs.notEmpty
  · obtain ⟨_, hfm, hfree, hcell⟩ := hcr.refCount
    have hself : s1.cell link = linkCell ctx true := by
      rw [hcell, Function.update_self]
      rfl
    have hgrown : GrownBy s {link} s1 := hcr.grown (linkCell_live ctx true link)
    have hlive1 : Live s1.cell link := hgrown.live link rfl
    have hwrite : CanWrite ctx s1.cell link := by
      unfold CanWrite
      rw [hself]
      exact checkWrite_self _
    have hkind : (s1.cell link).isLink = true := by
      rw [hself]
      exact (linkCell_kind ctx).1
    apply wp_mono (wp_and hcall1 (wp_and heffect
      (setLinkContent_live hok1 hlive1 hwrite hkind stream hread))) _ (fun _ _ => trivial)
    rintro r s2 ⟨hok2, hout, rfl⟩
    rw [if_neg (not_not_intro rfl)]
    cases hout with
    | failed _ _ hr _ => exact absurd rfl hr
    | set _ _ _ _ hw =>
      -- the link had no content before, so the index gives up nothing
      have hfreed : freeContent env s1.cell link s1.fileMemory = st.fileMemory := by
        unfold freeContent
        rw [if_neg, hfm, fileMemory_of_unlocked hs]
        rintro ⟨_, hno⟩
        rw [hself] at hno
        have hempty : scElementIsChecksumEmpty (linkCell ctx true) = true := decide_eq_true fun _ => rfl
        rw [hempty] at hno
        cases hno
      rw [hfreed, hself] at hw
      have hcell2 : s2.cell link = contentCell (env.checksum stream.bytes) stream.bytes (linkCell ctx true) := by
        rw [hw.cell, Function.update_self]
      have hlive2 : Live s2.cell link := by
        unfold Live
        rw [hcell2]
        exact contentCell_live _ _ (linkCell_kind ctx).1 (linkCell_live ctx true link)
      have hnoArc : ¬ LiveArc s2.cell link := by
        rintro ⟨_, harc⟩
        rw [hcell2] at harc
        have hmask : (contentCell (env.checksum stream.bytes) stream.bytes (linkCell ctx true)).type &&&
            scTypeArcMask = (linkCell ctx true).type &&& scTypeArcMask :=
          contentCell_type _ _ _ _ (by decide) (by decide)
        unfold ScElement.isArc at harc
        rw [hmask, (linkCell_kind ctx).2] at harc
        exact absurd harc (by decide)
      have hnew0 := (OnlyNew.of_unlocked hs).grown hgrown
      rw [Set.empty_union] at hnew0
      exact hmade link s2 hok2 (hnew0.written rfl hw hlive2) hlive2 hnoArc
        ⟨congrArg ScElement.type hcell2, congrArg ScElement.data hcell2, hw.fileMemory⟩

/-- A common arc from `beg` to `end_`. -/
structure CommonArc (c : Cells) (beg end_ x : ScAddr) : Prop where
  arc : LiveArc c x
  source : ownerOf c .out x = beg
  target : ownerOf c .inp x = end_
  type : (c x).type = arcTypeOf scTypeArcCommonConst

/-- What a call that returns another result than `SC_RESULT_OK` leaves: nothing; the link with the
identifier, where the element is not there; or the link and the arc to it, where the relation is not
there. -/
inductive LeftBehind (env : ScEnv) (ctx : ScContext) (nrelSystemIdentifier addr : ScAddr)
    (data : List ScByte) (st s : ScStorage) : ScResult → Prop where
  | nothing (r : ScResult) : OnlyNew st ∅ s → s.fileMemory = st.fileMemory →
      LeftBehind env ctx nrelSystemIdentifier addr data st s r
  | link (link : ScAddr) : OnlyNew st {link} s → ContentOf env ctx data st link s → ¬ Live s.cell addr →
      LeftBehind env ctx nrelSystemIdentifier addr data st s .error
  | linkAndArc (link x : ScAddr) : OnlyNew st {link, x} s → ContentOf env ctx data st link s →
      CommonArc s.cell addr link x → ¬ Live s.cell nrelSystemIdentifier →
      LeftBehind env ctx nrelSystemIdentifier addr data st s .error

theorem LeftBehind.of_unlocked {nrel addr : ScAddr} (h : s.unlocked = st.unlocked) (r : ScResult) :
    LeftBehind env ctx nrel addr data st s r :=
  .nothing r (OnlyNew.of_unlocked h) (fileMemory_of_unlocked h)

/-- The two arcs to the link. -/
theorem identifierArcs_rule {nrel addr : ScAddr} (hok : StoreOk env.thread s) (hnew : OnlyNew st {link} s)
    (hlive : Live s.cell link) (harc : ¬ LiveArc s.cell link) (hcontent : ContentOf env ctx data st link s) :
    IfReturns (do
      let arcAddr ← scStorageArcNew env ctx scTypeArcCommonConst addr link
      if arcAddr = ScAddr.empty then return .error
      let arcAddr ← scStorageArcNew env ctx scTypeEdgeAccessConstPosPerm nrel arcAddr
      if arcAddr = ScAddr.empty then return .error
      return .ok)
      (fun r s' => r ≠ .ok → LeftBehind env ctx nrel addr data st s' r) s := by
  rw [IfReturns, wp_bind]
  apply wp_mono (arcNew_or_dead hok (by decide) (by decide) hlive) _ (fun _ _ => trivial)
  rintro x s1 ⟨hok1, ⟨rfl, hu, hdead⟩ | ⟨hne, hcr⟩⟩
  · rw [if_pos rfl]
    intro _
    have hcell := cell_of_unlocked hu
    have hsame := hnew.grown (grownBy_of_unlocked hu)
    rw [Set.union_empty] at hsame
    refine .link link hsame (hcontent.grown hlive harc (grownBy_of_unlocked hu)) ?_
    rw [hcell]
    exact hdead
  rw [if_neg hne, wp_bind]
  have hadd := hcr.added hok.cells
  have hgrown := hcr.grown hok.cells
  apply wp_mono (arcNew_or_dead hok1 (by decide) (by decide) hadd.arc.1) _ (fun _ _ => trivial)
  rintro y s2 ⟨hok2, ⟨rfl, hu, hdead⟩ | ⟨hne2, _⟩⟩
  · rw [if_pos rfl]
    intro _
    have hcell := cell_of_unlocked hu
    have hgrown2 := hgrown.trans (grownBy_of_unlocked hu)
    rw [Set.union_empty] at hgrown2
    refine .linkAndArc link x (hnew.grown hgrown2) (hcontent.grown hlive harc hgrown2) ⟨?_, ?_, ?_, ?_⟩ ?_
    · rw [hcell]
      exact hadd.arc
    · rw [hcell, hadd.owner, if_pos rfl]
    · rw [hcell, hadd.owner, if_pos rfl]
    · rw [hcell]
      exact hcr.typeOf.1
    · rw [hcell]
      exact hdead
  · rw [if_neg hne2]
    intro hno
    exact absurd rfl hno

end

/-- A call that fails has changed nothing of what was there, and the only thing it may leave is the link
that it made, with the arc to it. -/
theorem set_system_identifier_failure (thread : ℕ) (evs : List StoreEvent) (st : ScStorage)
    (hr : Run (OwnStep thread) ScStorage.empty evs st) (env : ScEnv) (hthread : env.thread = thread)
    (ctx : ScContext) (nrelSystemIdentifier addr : ScAddr) (data : List ScByte)
    (hlen : data.length < 4294967296) (r : ScResult) (s : ScStorage)
    (hrun : scHelperSetSystemIdentifier env ctx nrelSystemIdentifier addr data hlen st = .ok (r, s))
    (hfail : r ≠ .ok) : LeftBehind env ctx nrelSystemIdentifier addr data st s r := by
  subst hthread
  have hok := ownRun_storeOk evs st hr
  suffices h : IfReturns (scHelperSetSystemIdentifier env ctx nrelSystemIdentifier addr data hlen)
      (fun r s => r ≠ .ok → LeftBehind env ctx nrelSystemIdentifier addr data st s r) st from
    wp_ok h hrun hfail
  have hcall := storeOk_call (f := scStorageFindLinksWithContent env ctx (streamOf data hlen))
    (.findLinksWithContent ctx (streamOf data hlen)) rfl trivial hok
  unfold scHelperSetSystemIdentifier
  rw [IfReturns, wp_bind]
  apply wp_mono (wp_and hcall (readOnly_findLinks ctx (streamOf data hlen) st st rfl)) _
    (fun _ _ => trivial)
  rintro ⟨found, results, count⟩ s1 ⟨hok1, hu1⟩
  simp only
  rw [wp_bind, wp_get, wp_ite]
  refine ⟨fun _ _ => LeftBehind.of_unlocked hu1 _, fun _ => ?_⟩
  apply identifierLink_rule hok1 hu1 (streamOf data hlen) rfl
  · intro s' hu _
    exact LeftBehind.of_unlocked hu _
  · intro link s' hok' hnew hlive harc hcontent
    exact identifierArcs_rule hok' hnew hlive harc hcontent

/-- The identifier "a" for the empty address, in a store with a node for the relation. -/
def identifierOfNothing : StoreM ScResult :=
  scHelperSetSystemIdentifier linkEnv exampleContext ⟨0, 1⟩ ScAddr.empty [97] letter_fits

def storeAfterFailure : ScStorage := Agent.afterCall identifierOfNothing storeWithArc

theorem identifierOfNothing_run :
    identifierOfNothing storeWithArc = .ok (.error, storeAfterFailure) :=
  Agent.call_eq (by decide +kernel)

theorem set_system_identifier_failure_empty : LeftBehind linkEnv exampleContext ⟨0, 1⟩ ScAddr.empty [97]
    storeWithArc storeAfterFailure .error :=
  set_system_identifier_failure 1 arcEvents storeWithArc storeWithArc_run linkEnv rfl exampleContext ⟨0, 1⟩
    ScAddr.empty [97] (by decide) .error storeAfterFailure identifierOfNothing_run (by decide)

/-- The call fails, and the link that it made stays, in the index as well. -/
theorem identifier_link_left :
    (∃ evs, Run (OwnStep 1) ScStorage.empty evs storeWithArc) ∧
      identifierOfNothing storeWithArc = .ok (.error, storeAfterFailure) ∧
      ¬ Live storeWithArc.cell ⟨0, 97⟩ ∧ Live storeAfterFailure.cell ⟨0, 97⟩ ∧
      storeWithArc.fileMemory.addrs (exampleChecksum [97]) = none ∧
      storeAfterFailure.fileMemory.addrs (exampleChecksum [97]) = some [⟨0, 97⟩] :=
  ⟨⟨arcEvents, storeWithArc_run⟩, identifierOfNothing_run, by decide +kernel, by decide +kernel,
    by decide +kernel, by decide +kernel⟩

end ScMachine.Store
