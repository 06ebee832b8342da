import Moon.Lib.Outcome
import Moon.Lib.EState
import Moon.Lib.Str
import Moon.Lib.Search
import Moon.Lib.SortedMap
import Moon.Target.Target
import Moon.Project.Project
import Moon.Task.Task
import Moon.Query.Builder
import Moon.Query.Match
import Moon.Query.Semantics
import Moon.Action.ActionNode
import Moon.ActionGraph.ActionGraph
import Moon.Pipeline.JobDispatcher
import Moon.Pipeline.Dispatch
import Moon.AsyncUtils.RunPooledTasks
import Moon.Affected.Affected
import Moon.Affected.Mark
import Moon.Affected.TaskTracker
import Moon.Affected.AffectedTracker
import Moon.Affected.Equivalence
import Moon.Affected.Reachability
import Moon.Hash.ContentHash
import Moon.Cas.Store
import Moon.Manifest.Manifest
import Moon.Lib.Merge
import Moon.Config.Merging
import Moon.TaskBuilder.BuildTask
import Moon.Lib.Reach
import Moon.ProjectGraph.ProjectGraph
import Moon.Workspace.WorkspaceBuilder
import Moon.Workspace.LoadTasks
import Moon.ActionGraph.Jobs
import Moon.Lib.HashTable
import Moon.Lib.StrSearch
import Moon.EnvVar.DotEnv
import Moon.Lib.Scan
import Moon.EnvVar.EnvSubstitutor
import Moon.TaskHasher.TaskHasher
import Moon.Lib.Toposort
import Moon.Lib.DiGraph
import Moon.GraphUtils.GraphTraits
import Moon.TaskGraph.TaskGraph
import Moon.TaskBuilder.TaskDepsBuilder
import Moon.Lib.Bfs
import Moon.ProjectGraph.Partitions
import Moon.ProjectGraph.Renumber
import Moon.Lib.Path
import Moon.Common.Path
import Moon.Manifest.Unpacker
import Moon.Codegen.Template
import Moon.TaskBuilder.ExtractConfig
import Moon.Codegen.Codegen
import Moon.Lib.Fuel
import Moon.TaskExpander.TokenExpander
import Moon.Vcs.GitTree
import Moon.CacheStorage.Helpers
import Moon.Lib.Machine
import Moon.AsyncUtils.PoolLoop
import Moon.Lib.Intern
import Moon.Lib.Triple
import Moon.ActionGraph.Builder
import Moon.ActionGraph.BuilderActions
import Moon.ActionGraph.BuilderRunTask
import Moon.ActionGraph.BuilderRun
