import StoryGraph.Editor.Settings
import StoryGraph.Rehearsal.Stage
import StoryGraph.Proofs.Editor.Reopening
import StoryGraph.Proofs.Editor.Session
import StoryGraph.Proofs.Editor.Usage
import StoryGraph.Proofs.Editor.Clean
import StoryGraph.Proofs.Editor.Soundness
import StoryGraph.Proofs.Editor.Zipper
import StoryGraph.Proofs.Editor.Positions
import StoryGraph.Proofs.Flow.Branch
import StoryGraph.Proofs.Flow.Cap
import StoryGraph.Proofs.Walk.Timing
import StoryGraph.Proofs.Flow.Budget
import StoryGraph.Proofs.Flow.Lingering
import StoryGraph.Proofs.Flow.Snapshot
import StoryGraph.Proofs.Flow.Errands
import StoryGraph.Proofs.Blackboard.Entry
import StoryGraph.Proofs.Graph.Building
import StoryGraph.Proofs.Graph.Integrity
import StoryGraph.Proofs.Graph.Removal
import StoryGraph.Proofs.Graph.Linking
import StoryGraph.Proofs.Graph.Tally
import StoryGraph.Proofs.Editor.Succession
import StoryGraph.Proofs.Blackboard.Loading
import StoryGraph.Proofs.Blackboard.Bits
