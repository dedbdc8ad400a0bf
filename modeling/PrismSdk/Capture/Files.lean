import PrismSdk.Camera.Results
import PrismSdk.Capture.Acks
import Std.Data.String.ToNat

/-! The files of a network capture. Each image that the assembler delivers is written to a
file of its own, and gets its row in the table after that; the names of the files do not
clash while the reports do not repeat. -/

namespace PrismSdk.Capture

open Camera (Call CameraFrameSet CameraChunkResult Assembler assembler reports)
open Library.Effects

def Request.row : Request → Option FrameRow
  | .writeFrameRow row => some row
  | _ => none

/-- The name of the file that a request opens for an image. -/
def Request.opened : Request → Option String
  | .openImage name => some name
  | _ => none

/-- The request, when it is one of those that save an image: it opens, writes or closes the
file, or writes the row. -/
def Request.saved : Request → Option Request
  | .openImage name => some (.openImage name)
  | .writeImage bytes => some (.writeImage bytes)
  | .closeImage => some .closeImage
  | .writeFrameRow row => some (.writeFrameRow row)
  | _ => none

theorem delivers_of_row (r : Request) (row : FrameRow) (h : r.row = some row) : r.Delivers := by
  cases r <;> first | rfl | cases h

theorem delivers_of_opened (r : Request) (name : String) (h : r.opened = some name) :
    r.Delivers := by
  cases r <;> first | rfl | cases h

theorem delivers_of_saved (r r' : Request) (h : r.saved = some r') : r.Delivers := by
  cases r <;> first | rfl | cases h

/-- The sets that some calls deliver, in order. -/
def deliveredSets (calls : List Call) : List CameraFrameSet :=
  (assembler.outputs assembler.init calls).flatMap (·.delivered)

/-- What does not acknowledge comes from the sets. -/
theorem filterMap_plan_of_sets {β : Type} {kind : Request → Option β}
    (h : ∀ frameId, kind (.sendVideoAck frameId) = none) (images : CameraFrameSet → List Request)
    (calls : List Call) : (plan images calls).filterMap kind =
      (deliveredSets calls).flatMap fun set => (images set).filterMap kind := by
  rw [plan, deliveredSets, List.filterMap_flatMap, List.flatMap_assoc]
  refine List.flatMap_congr fun result _ => ?_
  have hids : (result.discardedIncompleteFrameIds.map Request.sendVideoAck).filterMap kind = [] := by
    rw [List.filterMap_map, List.filterMap_eq_nil_iff]
    exact fun frameId _ => h frameId
  rw [planOf, List.filterMap_append, List.filterMap_append, hids, List.nil_append,
    List.filterMap_flatMap, CameraChunkResult.delivered, List.flatMap_append, List.filterMap_flatMap]
  congr 1
  refine List.flatMap_congr fun set _ => ?_
  rw [finishPlan, List.filterMap_append, List.filterMap_cons_none (h _), List.filterMap_nil,
    List.append_nil]

namespace Network

/-! ### Rows -/

/-- The rows of a set: one for each camera that has an image. -/
def rowsOf (set : CameraFrameSet) : List FrameRow :=
  (List.finRange 4).flatMap fun i => if set.jpeg i = [] then [] else [frameRow i set]

theorem filterMap_row (set : CameraFrameSet) :
    (imagesPlan set).filterMap Request.row = rowsOf set := by
  rw [imagesPlan, List.filterMap_flatMap]
  refine List.flatMap_congr fun i _ => ?_
  unfold imagePlan
  split_ifs <;> rfl

theorem filterMap_opened (set : CameraFrameSet) :
    (imagesPlan set).filterMap Request.opened = (rowsOf set).map (·.file) := by
  rw [imagesPlan, rowsOf, List.filterMap_flatMap, List.map_flatMap]
  refine List.flatMap_congr fun i _ => ?_
  unfold imagePlan
  split_ifs <;> rfl

theorem filterMap_saved (set : CameraFrameSet) :
    (imagesPlan set).filterMap Request.saved = imagesPlan set := by
  rw [imagesPlan, List.filterMap_flatMap]
  refine List.flatMap_congr fun i _ => ?_
  unfold imagePlan
  split_ifs <;> rfl

/-- A row of one of the sets comes right after its file. -/
def FollowsFile (sets : List CameraFrameSet) (before : List Request) (r : Request) : Prop :=
  ∀ row, r = .writeFrameRow row → ∃ set ∈ sets, ∃ i, set.jpeg i ≠ [] ∧ row = frameRow i set ∧
    [.openImage row.file, .writeImage (set.jpeg i), .closeImage] <:+ before

theorem FollowsFile.more {sets : List CameraFrameSet} (before : List Request) (r : Request)
    (more : List Request) (h : FollowsFile sets before r) : FollowsFile sets (more ++ before) r := by
  intro row hr
  obtain ⟨set, hset, i, hi, hrow, hsuffix⟩ := h row hr
  exact ⟨set, hset, i, hi, hrow, hsuffix.trans (List.suffix_append _ _)⟩

theorem led_imagePlan {sets : List CameraFrameSet} {set : CameraFrameSet} (h : set ∈ sets)
    (i : Fin 4) : Led (FollowsFile sets) (imagePlan set i) := by
  rintro before r after heq row rfl
  unfold imagePlan at heq
  split_ifs at heq with hi
  · cases before <;> cases heq
  · match before, heq with
    | [], heq => cases heq
    | [_], heq => cases heq
    | [_, _], heq => cases heq
    | [_, _, _], heq =>
      cases heq
      exact ⟨set, h, i, hi, rfl, List.suffix_rfl⟩
    | _ :: _ :: _ :: _ :: before, heq =>
      simp only [List.cons_append, List.cons.injEq] at heq
      cases before <;> cases heq.2.2.2.2

theorem led_acks {sets : List CameraFrameSet} (frameIds : List UInt32) :
    Led (FollowsFile sets) (frameIds.map .sendVideoAck) := by
  rintro before r after heq row rfl
  have hmem : Request.writeFrameRow row ∈ frameIds.map .sendVideoAck := by
    rw [heq]
    simp
  obtain ⟨_, -, hrow⟩ := List.mem_map.1 hmem
  cases hrow

theorem led_plan (calls : List Call) :
    Led (FollowsFile (deliveredSets calls)) (plan imagesPlan calls) := by
  refine Led.flatMap FollowsFile.more fun result hresult => ?_
  have himages : ∀ set ∈ result.delivered,
      Led (FollowsFile (deliveredSets calls)) (imagesPlan set) := fun set hset =>
    Led.flatMap FollowsFile.more fun i _ =>
      led_imagePlan (List.mem_flatMap.2 ⟨result, hresult, hset⟩) i
  refine Led.append FollowsFile.more (led_acks _) (Led.append FollowsFile.more ?_ ?_)
  · exact Led.flatMap FollowsFile.more fun set hset => himages set (List.mem_append_left _ hset)
  · exact Led.flatMap FollowsFile.more fun set hset => Led.append FollowsFile.more
      (himages set (List.mem_append_right _ hset)) (led_acks [set.frameId])

/-! ### The counters -/

/-- `images[i]` counts the rows that were written for the camera. -/
def CountsRows (c : Config Answer Locals) : Prop :=
  ∀ i, c.locals.images i =
    UInt64.ofNat ((done Request.row c.trace).filter fun row => row.cameraId = i).length

theorem framed_countsRows : Framed (fun r => r.row.isSome) (fun l => l.images) CountsRows where
  push c e he h := by
    have hnone : e.request.row = none := Option.not_isSome_iff_eq_none.1 (by simp [he])
    intro i
    simpa [done_push, hnone] using h i
  set c l hl h i := (congrFun hl i).trans (h i)

theorem countsRows_saveImage (set : CameraFrameSet) (i : Fin 4) :
    Keeps CountsRows (saveImage set i) := by
  have h := framed_countsRows
  refine Triple.bind (h.ask rfl) fun _ => Triple.bind (h.ask rfl) fun _ =>
    Triple.bind (h.ask rfl) fun _ => Triple.bind (Q := fun _ c => ∀ j,
      Function.update c.locals.images i (c.locals.images i + 1) j =
        UInt64.ofNat ((done Request.row c.trace).filter fun row => row.cameraId = j).length)
      (Triple.request (fun c _ hc j => ?_) fun c what hc j => ?_) fun _ => Triple.modify fun _ => id
  · rw [Config.push_locals, Config.push_trace, done_push, List.filter_append]
    by_cases hj : j = i
    · subst hj
      rw [Function.update_self, hc j]
      simp [Request.row, frameRow]
    · rw [Function.update_of_ne hj, hc j]
      simp [Request.row, frameRow, Ne.symm hj]
  · simpa [done_push] using hc j

theorem countsRows_final (options : Options) (turns : ℕ) (w : World Answer) :
    CountsRows (final .network options turns w) := by
  have h := framed_countsRows
  have haround : Around (fun r => r.row.isSome) (fun l => l.images) CountsRows CountsRows :=
    { inner := h
      ending := h
      le := fun _ => id
      quiet := fun r hr => by cases r <;> first | rfl | cases hr
      armed := fun _ _ => rfl }
  have hinside : Inside (fun r => r.row.isSome) (fun l => l.images) CountsRows CountsRows
      saveImages onSample :=
    { framed := h
      le := fun _ => id
      quiet := fun r hr => by cases r <;> first | rfl | cases hr
      besides := fun _ _ hl => hl.images
      acknowledge := fun _ => Triple.bind (h.ask rfl) fun _ => h.modify fun _ => rfl
      save := fun set => Triple.forM fun i _ => Triple.ite (fun _ => Triple.pure fun _ => id)
        fun _ => countsRows_saveImage set i
      handleFrame := fun _ => triple_handleFrame h rfl (fun _ => id) fun s =>
        Triple.bind (keeps_statistics h (fun _ _ => rfl) s) fun _ => h.ask rfl }
  have hinit : CountsRows { locals := {} } := fun _ => rfl
  obtain ⟨result, c, hmain, hend⟩ :=
    (runCapture_of_turn haround hinside.turn options turns).exitCode w hinit
  rw [final, Capture.main, main, hmain]
  exact hend.elim And.left And.right

/-- Whatever the device, the network and the disk do, in every run of the network capture:
the rows of the table are those of the images that the assembler delivered, in that order,
and none is left out unless a request failed; a row is written only after the file it
names was opened, written with the JPEG and closed, all with success; and the counters
count the rows written. -/
theorem images_exact (options : Options) (turns : ℕ) (w : World Answer) :
    let c := final .network options turns w
    let sets := deliveredSets (calls c.trace)
    asked Request.row c.trace <+: sets.flatMap rowsOf ∧
      ((∀ e ∈ deliveries c.trace, e.succeeds) →
        asked Request.row c.trace = sets.flatMap rowsOf) ∧
      (∀ before row outcome after,
        deliveries c.trace = before ++ ⟨.writeFrameRow row, outcome⟩ :: after →
          (∀ e ∈ before, e.succeeds) ∧ ∃ set ∈ sets, ∃ i, set.jpeg i ≠ [] ∧ row = frameRow i set ∧
            [.openImage row.file, .writeImage (set.jpeg i), .closeImage] <:+
              before.map (·.request)) ∧
      ∀ i, c.locals.images i =
        UInt64.ofNat ((done Request.row c.trace).filter fun row => row.cameraId = i).length := by
  intro c sets
  have haccounted := accounted_final .network options turns w
  obtain ⟨hinitial, hwhole⟩ := haccounted.asked delivers_of_row
  rw [filterMap_plan_of_sets (fun _ => rfl), show Link.network.images = imagesPlan from rfl,
    List.flatMap_congr fun set _ => filterMap_row set] at hinitial hwhole
  refine ⟨hinitial, hwhole, fun before row outcome after heq => ⟨?_, ?_⟩,
    countsRows_final options turns w⟩
  · exact haccounted.succeeds_before heq
  · exact (led_plan _).of_isPrefix haccounted.requests_isPrefix _ _ (after.map (·.request))
      (by rw [heq]; simp) row rfl

/-! ### Names -/

theorem toString_frameId_inj {f g : UInt32} (h : toString f = toString g) : f = g :=
  UInt32.toNat_inj.1 (Nat.repr_injective h)

/-- The name of a file tells the camera and the frame. -/
theorem imageName_inj {i j : Fin 4} {f g : UInt32} (h : imageName i f = imageName j g) :
    i = j ∧ f = g := by
  have hlist := congrArg String.toList h
  simp only [imageName, String.toList_append] at hlist
  have hcamera : ∀ k : Fin 4, (toString k.val).toList = [Char.ofNat (48 + k.val)] := by decide
  have hdigit : ∀ k l : Fin 4, Char.ofNat (48 + k.val) = Char.ofNat (48 + l.val) → k = l := by
    decide
  rw [hcamera, hcamera] at hlist
  have hsplit := List.append_inj (List.append_cancel_right hlist) (by simp)
  have hchar := List.append_cancel_right hsplit.1
  simp only [List.append_cancel_left_eq, List.cons.injEq, and_true] at hchar
  exact ⟨hdigit i j hchar, toString_frameId_inj (String.toList_injective hsplit.2)⟩

theorem mem_rowsOf {set : CameraFrameSet} {row : FrameRow} :
    row ∈ rowsOf set ↔ ∃ i, set.jpeg i ≠ [] ∧ row = frameRow i set := by
  simp only [rowsOf, List.mem_flatMap, List.mem_finRange, true_and]
  refine exists_congr fun i => ?_
  by_cases hi : set.jpeg i = []
  · simp [hi]
  · simp [hi]

theorem nodup_names (set : CameraFrameSet) : ((rowsOf set).map (·.file)).Nodup := by
  rw [rowsOf, List.map_flatMap, List.nodup_flatMap]
  refine ⟨fun i _ => ?_, ?_⟩
  · split_ifs <;> simp
  · refine (List.nodup_finRange 4).imp fun {i j} hne name hi hj => hne ?_
    dsimp only at hi hj
    split_ifs at hi hj
    · cases hi
    · cases hi
    · cases hj
    · rw [List.map_singleton, List.mem_singleton] at hi hj
      exact (imageName_inj (hi.symm.trans hj)).1

theorem deliveredSets_snoc (calls : List Call) (call : Call) :
    deliveredSets (calls ++ [call]) = deliveredSets calls ++
      (assembler.step (assembler.exec assembler.init calls) call).2.delivered := by
  rw [deliveredSets, Library.System.outputs_snoc, List.flatMap_append, List.flatMap_singleton]
  rfl

theorem reports_snoc (calls : List Call) (call : Call) :
    reports assembler.init (calls ++ [call]) = reports assembler.init calls ++
      (assembler.step (assembler.exec assembler.init calls) call).2.reported := by
  rw [reports, Library.System.outputs_snoc, List.flatMap_append, List.flatMap_singleton]
  rfl

theorem frameIds_sublist (calls : List Call) :
    ((deliveredSets calls).map (·.frameId)).Sublist (reports assembler.init calls) := by
  induction calls using List.reverseRecOn with
  | nil => exact List.Sublist.slnil
  | append_singleton calls call ih =>
    rw [deliveredSets_snoc, reports_snoc, List.map_append]
    exact ih.append (Camera.delivered_sublist calls call)

theorem nodup_files {calls : List Call} (h : (reports assembler.init calls).Nodup) :
    ((deliveredSets calls).flatMap fun set => (rowsOf set).map (·.file)).Nodup := by
  rw [List.nodup_flatMap]
  refine ⟨fun set _ => nodup_names set, ?_⟩
  have hids := (h.sublist (frameIds_sublist calls))
  refine (List.pairwise_map.1 hids).imp fun {set set'} hne name hset hset' => hne ?_
  obtain ⟨row, hrow, rfl⟩ := List.mem_map.1 hset
  obtain ⟨row', hrow', hname⟩ := List.mem_map.1 hset'
  obtain ⟨i, -, rfl⟩ := mem_rowsOf.1 hrow
  obtain ⟨j, -, rfl⟩ := mem_rowsOf.1 hrow'
  exact (imageName_inj hname).2.symm

/-- No image is overwritten while the frame IDs are not used again: in every run of the
network capture the names of the files that are opened differ, unless some frame ID is
reported twice, and then at least 64 reports lie between. -/
theorem images_kept (options : Options) (turns : ℕ) (w : World Answer) :
    let c := final .network options turns w
    (asked Request.opened c.trace).Nodup ∨ ∃ i j f, i + 64 < j ∧
      (reports assembler.init (calls c.trace))[i]? = some f ∧
      (reports assembler.init (calls c.trace))[j]? = some f := by
  intro c
  obtain ⟨hinitial, -⟩ := (accounted_final .network options turns w).asked delivers_of_opened
  rw [filterMap_plan_of_sets (fun _ => rfl), show Link.network.images = imagesPlan from rfl,
    List.flatMap_congr fun set _ => filterMap_opened set] at hinitial
  by_cases hn : (reports assembler.init (calls c.trace)).Nodup
  · exact .inl ((nodup_files hn).sublist hinitial.sublist)
  · rw [List.nodup_iff_getElem?_ne_getElem?] at hn
    push Not at hn
    obtain ⟨i, j, hij, hj, heq⟩ := hn
    have hfresh := (Camera.Assembler.settles_run Camera.Assembler.inv_init.history
      (noReset_calls c.trace)).fresh
    have hget := List.getElem?_eq_getElem hj
    refine .inr ⟨i, j, _, ?_, heq.trans hget, hget⟩
    by_contra hclose
    exact hfresh.ne_of_close _ hij (Nat.not_lt.1 hclose) (heq.trans hget) hget

end Network

end PrismSdk.Capture
