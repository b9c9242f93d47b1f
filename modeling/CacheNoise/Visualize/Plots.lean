import CacheNoise.Visualize.Iterate
import CacheNoise.Visualize.Statistics

/-!
# What the visualizer displays

`main` of `visualize.py`, down to the pictures: the bars or the heatmap of an image, and those that
an animation goes through. The animation itself is a part of `matplotlib`: it takes any number of
frames from the measurement, one after the other, and passes each one to `generic_update`.

Both plots take the first frame from the measurement to begin with. A heatmap shows it, and so does
a bar chart without a maximum. With one, the bars start at the maximum, and the data only go to the
attribute `height` of the container, which no artist looks at: an image then has flat bars
(`visualizeMain_image`). And a video goes on with the second frame in any case
(`visualizeMain_video`).
-/

namespace CacheNoise

/-! ### Charts -/

/-- `args.graph`. -/
inductive Graph
  | barChart
  | heatmap
  deriving DecidableEq

/-- `args`, without the names of files and the quality of the output. -/
structure VisualizeArgs where
  graph : Graph
  type : OutputType
  stats : Bool
  combine : ℤ
  max : Option ℤ
  min : Option ℤ

/-- A `BarContainer`: the heights of its artists, and an attribute that is set from outside. -/
structure BarContainer where
  artists : List ℤ
  height : Option (List ℕ)
  deriving DecidableEq

/-- An `AxesImage`. -/
structure AxesImage where
  data : List (List ℕ)
  vmin : Option ℤ
  vmax : Option ℤ
  deriving DecidableEq

/-- The container of a plot: bars with `combine_lines`, and a heatmap without. -/
@[reducible]
def Container : Bool → Type
  | true => BarContainer
  | false => AxesImage

/-- `set_height` for each datum and its artist, as far as both go. -/
def setHeights : List ℕ → List ℤ → List ℤ
  | data :: newData, _ :: artists => data :: setHeights newData artists
  | _, artists => artists

/-- `generic_update`. -/
def genericUpdate : {combineLines : Bool} → Frame ℕ combineLines → Container combineLines →
    Container combineLines
  | true, newData, container =>
    { container with artists := setHeights newData container.artists }
  | false, newData, container => { container with data := newData }

/-! ### Plots -/

section

variable {combineLines : Bool}

/-- `FuncAnimation`: the pictures drawn for the first `taken` frames that are left, or for all of
them. Which of these are kept is up to `matplotlib`. -/
def funcAnimation (pool : Pool) : ℕ → MeasureData combineLines → Container combineLines →
    Except Raised (List (Container combineLines))
  | 0, _, _ => .ok []
  | taken + 1, m, container =>
    match m.next .exact pool with
    | (.ok newData, m) => do
      let container := genericUpdate newData container
      let pictures ← funcAnimation pool taken m container
      .ok (container :: pictures)
    | (.error .stopIteration, _) => .ok []
    | (.error e, _) => .error e

/-- `generic_video`. `FuncAnimation` asks for the length of the measurement. -/
def genericVideo (type : OutputType) (pool : Pool) (taken : ℕ) (m : MeasureData combineLines)
    (chart : Container combineLines) : Except Raised (List (Container combineLines)) :=
  match type with
  | .video => do
    let _ ← m.len
    funcAnimation pool taken m chart
  | .image => .ok [chart]

end

/-- `heatmap_plot`. -/
def heatmapPlot (args : VisualizeArgs) (pool : Pool) (taken : ℕ) (m : MeasureData false) :
    Except Raised (List AxesImage) :=
  match m.next .exact pool with
  | (.ok firstBlock, m) => genericVideo args.type pool taken m ⟨firstBlock, args.min, args.max⟩
  | (.error e, _) => .error e

/-- `init_block`. A maximum that is 0 is as good as none. -/
def initBlock (max : Option ℤ) (firstBlock : List ℕ) : List ℤ :=
  if max.getD 0 ≠ 0 then List.replicate firstBlock.length (max.getD 0)
  else firstBlock.map fun data : ℕ => (data : ℤ)

/-- `bar_chart_plot`. -/
def barChartPlot (args : VisualizeArgs) (pool : Pool) (taken : ℕ) (m : MeasureData true) :
    Except Raised (List BarContainer) :=
  match m.next .exact pool with
  | (.ok firstBlock, m) =>
    let barChart : BarContainer := ⟨initBlock args.max firstBlock, none⟩
    let barChart := { barChart with height := some firstBlock }
    genericVideo args.type pool taken m barChart
  | (.error e, _) => .error e

/-- What comes out of the visualizer. -/
inductive Display
  | stats (statistics : Statistics) (dataSets : ℕ)
  | pictures (combineLines : Bool) (pictures : List (Container combineLines))

/-- `main`. -/
def visualizeMain (args : VisualizeArgs) (sets : H5File) (pool : Pool) (images : ℕ → Pool)
    (taken : ℕ) : Except Raised Display :=
  if args.stats = true then do
    let statistics ← printMinMaxMean args.type (args.graph = .barChart) sets args.combine pool
      images
    pure (.stats statistics sets.length)
  else match args.graph with
    | .heatmap => do
      let measurement ← MeasureData.fromFile false sets args.combine (args.type = .image)
      let pictures ← heatmapPlot args pool taken measurement
      pure (.pictures false pictures)
    | .barChart => do
      let measurement ← MeasureData.fromFile true sets args.combine (args.type = .image)
      let pictures ← barChartPlot args pool taken measurement
      pure (.pictures true pictures)

/-! ### What a container shows -/

/-- The artists of a container show this frame. -/
def Container.Displays : {combineLines : Bool} → Container combineLines → Frame ℕ combineLines →
    Prop
  | true, container, frame => container.artists = frame.map fun data : ℕ => (data : ℤ)
  | false, container, frame => container.data = frame

/-- A container for frames of this many sets. -/
def Container.Fits : {combineLines : Bool} → Container combineLines → ℕ → Prop
  | true, container, n => container.artists.length = n
  | false, _, _ => True

theorem setHeights_eq {newData : List ℕ} {artists : List ℤ} (h : artists.length = newData.length) :
    setHeights newData artists = newData.map fun data : ℕ => (data : ℤ) := by
  induction newData generalizing artists with
  | nil => exact List.length_eq_zero_iff.mp h
  | cons data newData ih =>
    obtain ⟨artist, artists, rfl⟩ := List.exists_cons_of_length_eq_add_one h
    rw [setHeights, List.map_cons, ih (Nat.succ.inj h)]

section

variable {combineLines : Bool} {container : Container combineLines}
  {frame : Frame ℕ combineLines}

/-- After an update, the new frame is shown, whatever was shown before. -/
theorem displays_genericUpdate (h : container.Fits frame.length) :
    (genericUpdate frame container).Displays frame := by
  cases combineLines with
  | true => exact setHeights_eq h
  | false => rfl

theorem Container.Displays.fits (h : container.Displays frame) : container.Fits frame.length := by
  cases combineLines with
  | true =>
    change container.artists.length = frame.length
    rw [show container.artists = _ from h, List.length_map]
  | false => trivial

end

theorem length_initBlock (max : Option ℤ) (firstBlock : List ℕ) :
    (initBlock max firstBlock).length = firstBlock.length := by
  rw [initBlock]
  split
  · exact List.length_replicate
  · exact List.length_map _

/-- The pictures show these frames, one after the other. -/
def Display.Shows : Display → ((combineLines : Bool) → List (Frame ℕ combineLines)) → Prop
  | .stats .., _ => False
  | .pictures combineLines charts, frames =>
    List.Forall₂ Container.Displays charts (frames combineLines)

/-! ### Frames one after the other -/

section

variable {combineLines : Bool} {N c k taken : ℕ} {rows columns : UInt64} {sets : H5File}
  {args : VisualizeArgs} {pool : Pool} {images : ℕ → Pool}

/-- How many frames a measurement yields that is not combined to one: one too many if it is
combined. -/
def yielded (N c : ℕ) : ℕ := if c = 1 then N else N ⌈/⌉ c + 1

/-- The sum of the chunks from `k` on that are in the frame that is yielded then. -/
def yieldedSum (columns : UInt64) (sets : H5File) (N c k : ℕ) : ℕ → ℕ → ℕ :=
  ∑ i ∈ Finset.range (maxCombines N c k), raw columns sets (k + i)

/-- The only frame, if everything is combined; the file is closed then. -/
theorem next_image (hm : Measurement N rows columns sets) (hc : 2 ≤ c) (hN : 0 < N) (hNc : N ≤ c)
    (hread : Readable combineLines rows columns) (hrows : HasRow combineLines rows) (pool : Pool) :
    (MeasureData.reader combineLines sets c 0).next .exact pool =
      (.ok (frameOf combineLines rows columns (∑ i ∈ Finset.range N, raw columns sets i)),
        ⟨⟨sets, true⟩, 1, c⟩) := by
  have himage : (MeasureData.reader combineLines sets c 1).getItem .exact pool 0 = _ :=
    getItem_image hm hc hN hNc (Nat.zero_le 1) pool
  rw [generateImage_eq hm hN hread hrows] at himage
  exact congrArg (fun r => (stopping r.1, r.2)) himage

/-- Otherwise, the file stays open. -/
theorem next_snd (hm : Measurement N rows columns sets) (hc : 0 < c) (h : N ⌈/⌉ c ≠ 1 ∨ c = 1)
    (pool : Pool) :
    ((MeasureData.reader combineLines sets c k).next .exact pool).2 =
      .reader combineLines sets c (k + 1) := by
  have hlen : (MeasureData.reader combineLines sets c (k + 1)).len = .ok (N ⌈/⌉ c) :=
    len_reader hm hc
  change ((MeasureData.reader combineLines sets c (k + 1)).getItem .exact pool k).2 = _
  rw [MeasureData.getItem]
  split
  · rfl
  · next hcombines =>
    rw [hlen]
    dsimp only
    split
    · rfl
    · rw [if_neg (h.resolve_right hcombines)]

/-- **One frame**: the chunks from `k` on. -/
theorem next_reader (hm : Measurement N rows columns sets) (hc : 0 < c) (hNc : c = 1 ∨ c < N)
    (hread : Readable combineLines rows columns) (hk : k < yielded N c) (pool : Pool) :
    (MeasureData.reader combineLines sets c k).next .exact pool =
      (.ok (frameOf combineLines rows columns (yieldedSum columns sets N c k)),
        .reader combineLines sets c (k + 1)) := by
  have hframe : ((MeasureData.reader combineLines sets c (k + 1)).getItem .exact pool k).1 =
      .ok (frameOf combineLines rows columns (yieldedSum columns sets N c k)) := by
    rw [yielded] at hk
    split at hk
    · next hone =>
      subst hone
      have hsum : yieldedSum columns sets N 1 k = raw columns sets k := by
        rw [yieldedSum, maxCombines, if_neg fun h => h.2 (Nat.mod_one N), Finset.sum_range_one,
          Nat.add_zero]
      rw [getItem_one, hsum]
      exact chunkAt_eq (m := .reader combineLines sets 1 (k + 1)) hm rfl hread hk
    · next hone =>
      have hlt := hNc.resolve_left hone
      exact getItem_eq hm hread (by omega) hlt (Nat.lt_succ_iff.mp hk) pool
  have hopen : N ⌈/⌉ c ≠ 1 ∨ c = 1 := by
    obtain hone | hlt := hNc
    · exact .inr hone
    · exact .inl (Nat.ne_of_gt (two_le_ceilDiv hc hlt))
  exact Prod.ext (congrArg stopping hframe) (next_snd hm hc hopen pool)

/-- After the last frame, the iteration stops. -/
theorem next_stops (hm : Measurement N rows columns sets) (hc : 0 < c)
    (hk : yielded N c ≤ k) (pool : Pool) :
    ((MeasureData.reader combineLines sets c k).next .exact pool).1 = .error .stopIteration := by
  have hframe : ((MeasureData.reader combineLines sets c (k + 1)).getItem .exact pool k).1 =
      .error .keyError := by
    rw [yielded] at hk
    split at hk
    · next hone =>
      subst hone
      exact chunkAt_absent (m := .reader combineLines sets 1 (k + 1)) hm rfl hk .exact
    · rw [getItem_cases _ (by omega), hm.length_eq, if_pos (Nat.lt_of_succ_le hk)]
  exact congrArg stopping hframe

/-- The frames from key `start` to `start + n`, as they are yielded. -/
def yieldedFrames (rows columns : UInt64) (sets : H5File) (N c start n : ℕ) (combineLines : Bool) :
    List (Frame ℕ combineLines) :=
  (List.range' start n).map fun k =>
    frameOf combineLines rows columns (yieldedSum columns sets N c k)

theorem length_frameOf (combineLines : Bool) (rows columns : UInt64) (f : ℕ → ℕ → ℕ) :
    (frameOf combineLines rows columns f).length = rows.toNat := by
  rw [frameOf, List.length_map, List.length_range]

/-- **An animation shows the frames that are left**, one after the other. -/
theorem funcAnimation_shows (hm : Measurement N rows columns sets) (hc : 0 < c)
    (hNc : c = 1 ∨ c < N) (hread : Readable combineLines rows columns) (pool : Pool) (taken k : ℕ)
    {container : Container combineLines} (hfits : container.Fits rows.toNat) :
    ∃ pictures, funcAnimation pool taken (.reader combineLines sets c k) container = .ok pictures ∧
      List.Forall₂ Container.Displays pictures
        (yieldedFrames rows columns sets N c k (min taken (yielded N c - k)) combineLines) := by
  induction taken generalizing k container with
  | zero =>
    rw [Nat.zero_min]
    exact ⟨[], rfl, .nil⟩
  | succ taken ih =>
    obtain hk | hk := Nat.lt_or_ge k (yielded N c)
    · have hnext := next_reader hm hc hNc hread hk pool
      have hlength := length_frameOf combineLines rows columns (yieldedSum columns sets N c k)
      have hmin : min (taken + 1) (yielded N c - k) =
          min taken (yielded N c - (k + 1)) + 1 := by omega
      rw [hmin, yieldedFrames, List.range'_succ, List.map_cons]
      generalize frameOf combineLines rows columns (yieldedSum columns sets N c k) = frame at *
      have hdisplays : (genericUpdate frame container).Displays frame :=
        displays_genericUpdate (hlength ▸ hfits)
      obtain ⟨pictures, hpictures, hshows⟩ := ih (k + 1) (hlength ▸ hdisplays.fits)
      refine ⟨genericUpdate frame container :: pictures, ?_, .cons hdisplays hshows⟩
      rw [funcAnimation, hnext]
      dsimp only
      rw [hpictures]
      rfl
    · have hstops : (MeasureData.reader combineLines sets c k).next .exact pool =
          (.error .stopIteration, _) := Prod.ext (next_stops hm hc hk pool) rfl
      rw [Nat.sub_eq_zero_of_le hk, Nat.min_zero, funcAnimation, hstops]
      exact ⟨[], rfl, .nil⟩

/-! ### The pictures of the visualizer -/

/-- `main`, when the measurement can be opened. -/
theorem visualizeMain_eq (hstats : args.stats = false)
    {m : ∀ combineLines, MeasureData combineLines}
    (hfrom : ∀ combineLines, MeasureData.fromFile combineLines sets args.combine
      (args.type = .image) = .ok (m combineLines)) :
    visualizeMain args sets pool images taken =
      match args.graph with
      | .heatmap => (heatmapPlot args pool taken (m false)).map (Display.pictures false)
      | .barChart => (barChartPlot args pool taken (m true)).map (Display.pictures true) := by
  rw [visualizeMain, if_neg (by rw [hstats]; exact Bool.false_ne_true)]
  cases args.graph with
  | heatmap =>
    dsimp only
    rw [hfrom, ok_bind]
    rfl
  | barChart =>
    dsimp only
    rw [hfrom, ok_bind]
    rfl

theorem heatmapPlot_eq {m m' : MeasureData false} {firstBlock : Frame ℕ false}
    (h : m.next .exact pool = (.ok firstBlock, m')) :
    heatmapPlot args pool taken m =
      genericVideo args.type pool taken m' ⟨firstBlock, args.min, args.max⟩ := by
  rw [heatmapPlot, h]

theorem barChartPlot_eq {m m' : MeasureData true} {firstBlock : Frame ℕ true}
    (h : m.next .exact pool = (.ok firstBlock, m')) :
    barChartPlot args pool taken m =
      genericVideo args.type pool taken m' ⟨initBlock args.max firstBlock, some firstBlock⟩ := by
  rw [barChartPlot, h]

/-- A plot takes the first frame from the measurement, and goes on with a chart that fits. -/
structure IsPlot (type : OutputType) (pool : Pool) (taken : ℕ)
    (plot : MeasureData combineLines → Except Raised (List (Container combineLines))) : Prop where
  ok : ∀ {m m' firstBlock}, m.next .exact pool = (.ok firstBlock, m') →
    ∃ chart : Container combineLines, chart.Fits firstBlock.length ∧
      plot m = genericVideo type pool taken m' chart
  error : ∀ {m m' e}, m.next .exact pool = (.error e, m') → plot m = .error e

theorem isPlot_heatmap : IsPlot args.type pool taken (heatmapPlot args pool taken) where
  ok h := ⟨_, trivial, heatmapPlot_eq h⟩
  error h := by rw [heatmapPlot, h]

theorem isPlot_barChart : IsPlot args.type pool taken (barChartPlot args pool taken) where
  ok {_ _ firstBlock} h :=
    ⟨⟨initBlock args.max firstBlock, some firstBlock⟩, length_initBlock args.max firstBlock,
      barChartPlot_eq h⟩
  error h := by rw [barChartPlot, h]

/-- **The pictures of a video**, for any plot. -/
theorem IsPlot.video
    {plot : MeasureData combineLines → Except Raised (List (Container combineLines))}
    (h : IsPlot .video pool taken plot) (hm : Measurement N rows columns sets) (hc : 0 < c)
    (hread : Readable combineLines rows columns) (hrows : HasRow combineLines rows) :
    (0 < N ∧ (c = 1 ∨ c < N) ∧ ∃ charts, plot (.reader combineLines sets c 0) = .ok charts ∧
      List.Forall₂ Container.Displays charts
        (yieldedFrames rows columns sets N c 1 (min taken (yielded N c - 1)) combineLines)) ∨
    (¬ (0 < N ∧ (c = 1 ∨ c < N)) ∧ ∃ e, plot (.reader combineLines sets c 0) = .error e) := by
  obtain rfl | hN := Nat.eq_zero_or_pos N
  · -- without iterations, there is no first frame
    have hempty : (MeasureData.reader combineLines sets c 0).next .exact pool =
        (.error .stopIteration, _) :=
      Prod.ext (congrArg stopping (getItem_empty hm hc 0 pool)) rfl
    exact .inr ⟨fun h => absurd h.1 (Nat.lt_irrefl 0), _, h.error hempty⟩
  by_cases hNc : c = 1 ∨ c < N
  · have hpos : 0 < yielded N c := by
      rw [yielded]
      split <;> omega
    obtain ⟨chart, hfits, hplot⟩ := h.ok (next_reader hm hc hNc hread hpos pool)
    rw [length_frameOf] at hfits
    obtain ⟨charts, hcharts, hshows⟩ := funcAnimation_shows hm hc hNc hread pool taken 1 hfits
    refine .inl ⟨hN, hNc, charts, ?_, hshows⟩
    rw [hplot, genericVideo, len_reader hm hc, ok_bind, hcharts]
  · -- the file is closed after the first frame, and `FuncAnimation` asks for the length
    have hc2 : 2 ≤ c := by omega
    obtain ⟨chart, -, hplot⟩ := h.ok (next_image hm hc2 hN (by omega) hread hrows pool)
    exact .inr ⟨fun h => hNc h.2, .valueError, hplot⟩

theorem exists_map_ok {α β : Type} {f : α → β} {r : Except Raised α} {P : β → Prop} {Q : Prop}
    (h : (Q ∧ ∃ a, r = .ok a ∧ P (f a)) ∨ (¬ Q ∧ ∃ e, r = .error e)) :
    (∀ b, r.map f = .ok b → P b) ∧ ((∃ b, r.map f = .ok b) ↔ Q) := by
  obtain ⟨hQ, a, rfl, hP⟩ | ⟨hQ, e, rfl⟩ := h
  · refine ⟨fun b hb => ?_, iff_of_true ⟨_, rfl⟩ hQ⟩
    obtain rfl := Except.ok.inj hb
    exact hP
  · refine ⟨fun b hb => ?_, iff_of_false (fun hsome => ?_) hQ⟩
    · cases hb
    · obtain ⟨b, hb⟩ := hsome
      cases hb

/-- **A video begins with the second frame**, and goes on to the last one that is yielded; there is
none if there are no iterations, or all of them are combined to one. -/
theorem visualizeMain_video (hm : Measurement N rows columns sets) (hc : 0 < c) (hrows : rows ≠ 0)
    (hcolumns : columns ≠ 0) (hstats : args.stats = false) (htype : args.type = .video)
    (hcombine : args.combine = c) (pool : Pool) (images : ℕ → Pool) (taken : ℕ) :
    (∀ display, visualizeMain args sets pool images taken = .ok display →
      display.Shows (yieldedFrames rows columns sets N c 1 (min taken (yielded N c - 1)))) ∧
    ((∃ display, visualizeMain args sets pool images taken = .ok display) ↔
      0 < N ∧ (c = 1 ∨ c < N)) := by
  have hfrom : ∀ combineLines, MeasureData.fromFile combineLines sets args.combine
      (args.type = .image) = .ok (.reader combineLines sets c 0) := by
    intro combineLines
    rw [hcombine, htype]
    exact fromFile_eq hc false
  rw [visualizeMain_eq hstats hfrom]
  cases args.graph with
  | heatmap =>
    refine exists_map_ok ?_
    have hvideo := (htype ▸ @isPlot_heatmap taken args pool).video hm hc (fun h => by cases h)
      (fun _ => hrows)
    rwa [← and_assoc] at hvideo
  | barChart =>
    refine exists_map_ok ?_
    have hvideo := (htype ▸ @isPlot_barChart taken args pool).video hm hc
      (fun _ => .inr hcolumns) (fun h => by cases h)
    rwa [← and_assoc] at hvideo

end

/-- The bars of the iterations, combined by two. -/
def combinedVideo : VisualizeArgs := ⟨.barChart, .video, false, 2, none, none⟩

/-- Four iterations combined by two: the sums `2 + 3` and `3 + 4`. -/
theorem visualizeMain_video_fourIterations :
    ∃ display, visualizeMain combinedVideo fourIterations .single (fun _ => .single) 10 =
        .ok display ∧
      display.Shows (yieldedFrames 1 1 fourIterations 4 2 1 2) := by
  have hm : Measurement 4 1 1 fourIterations := measurement_measurementFile
  have hstats : combinedVideo.stats = false := rfl
  have hvideo := visualizeMain_video hm Nat.two_pos (by decide) (by decide) hstats rfl rfl .single
    (fun _ => .single) 10
  obtain ⟨display, hdisplay⟩ := hvideo.2.mpr ⟨by decide, .inr (by decide)⟩
  exact ⟨display, hdisplay, hvideo.1 display hdisplay⟩

end CacheNoise
