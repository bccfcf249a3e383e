import Acceptance.Text.Basic

/-! # Templates

The texts of the files that a new project starts with.
-/

namespace Acceptance

namespace Templates

/-- Lines, each with a line feed. -/
def lines (ls : List Text) : Text := ls.flatMap fun l => l ++ "\n"

/-- The progress notes of a project. -/
def progress (name type date : Text) : Text :=
  lines
    ["# " ++ name ++ " - 项目进度",
      "",
      "## 基本信息",
      "- 项目名称: " ++ name,
      "- 项目类型: " ++ type,
      "- 创建时间: " ++ date,
      "- 最后更新: " ++ date,
      "",
      "## 当前状态",
      "- 进度: 0/0 (0%)",
      "- 状态: 初始化",
      "- 当前功能: 无",
      "- 阻塞: 无",
      "",
      "## 会话记录",
      "_暂无会话记录_",
      "",
      "## 功能清单",
      "",
      "### 已完成 (0)",
      "_暂无_",
      "",
      "### 进行中 (0)",
      "_暂无_",
      "",
      "### 待处理 (0)",
      "_暂无_"]

/-- The outline of a specification. -/
def specification (name : Text) : Text :=
  lines
    ["# " ++ name ++ " - 应用规格说明",
      "",
      "## 概述",
      "[描述你的应用]",
      "",
      "## 核心功能",
      "1. [功能 1]",
      "2. [功能 2]",
      "3. [功能 3]",
      "",
      "## 技术栈",
      "- 前端: [React/Vue/etc]",
      "- 后端: [Node.js/Python/etc]",
      "- 数据库: [PostgreSQL/MongoDB/etc]",
      "",
      "## 非功能性需求",
      "- 性能: [要求]",
      "- 安全: [要求]"]

/-- The start of a session, in the guide. -/
def guideStart (name : Text) : Text :=
  lines
    ["# " ++ name ++ " - 项目指令",
      "",
      "本文件说明 agent 如何在这个长运行项目中工作。",
      "",
      "## 每次会话开始时",
      "",
      "\x60\x60\x60bash",
      "pwd",
      "cat .agent/features.json",
      "cat .agent/progress.md",
      "git log --oneline -5",
      "lra next",
      "\x60\x60\x60",
      ""]

/-- The rules of work and the end of a session, in the guide. -/
def guideRules : Text :=
  lines
    ["## 工作流程",
      "",
      "1. \x60lra next\x60 获取下一个待处理功能，一次只处理一个功能",
      "2. 编写代码并在本地测试",
      "3. \x60lra verify feat-xxx\x60 运行端到端测试，通过后自动标记完成",
      "4. \x60lra commit feat-xxx\x60 提交进度",
      "5. \x60lra status\x60 查看状态",
      "",
      "## 核心规则",
      "",
      "1. 功能列表不可变：不能删除功能，不能修改功能描述，只能通过 \x60done\x60/\x60verify\x60 标记完成",
      "2. 增量进展：每次会话完成 1-3 个功能",
      "3. 验证优先：功能完成后必须通过端到端测试",
      "4. 状态同步：代码变更对应 git commit，功能完成对应 features.json",
      "",
      "## 会话结束检查",
      "",
      "- [ ] 当前功能已测试通过",
      "- [ ] \x60lra done\x60 或 \x60lra verify\x60 已执行",
      "- [ ] \x60lra commit\x60 已执行",
      "- [ ] \x60git status\x60 干净"]

/-- The guide for those who work on a project. -/
def guide (name : Text) : Text := guideStart name ++ guideRules

def webScript : Text :=
  lines
    ["#!/bin/bash",
      "cd \"$(dirname \"$0\")\"",
      "",
      "echo \"Setting up web development environment...\"",
      "",
      "if [ -f \"package.json\" ]; then",
      "    npm install",
      "    npm run dev",
      "else",
      "    echo \"No package.json found\"",
      "    echo \"Please run: npm init -y\"",
      "fi"]

def apiScript : Text :=
  lines
    ["#!/bin/bash",
      "cd \"$(dirname \"$0\")\"",
      "",
      "echo \"Setting up API development environment...\"",
      "",
      "if [ -f \"requirements.txt\" ]; then",
      "    pip install -r requirements.txt",
      "    python main.py",
      "elif [ -f \"package.json\" ]; then",
      "    npm install",
      "    npm run dev",
      "else",
      "    echo \"No package.json or requirements.txt found\"",
      "fi"]

def otherScript : Text :=
  lines
    ["#!/bin/bash",
      "cd \"$(dirname \"$0\")\"",
      "",
      "echo \"Setting up development environment...\"",
      "echo \"Please customize this script for your project.\""]

/-- The script that sets up the development environment for a type of project. -/
def script (type : Text) : Text :=
  if type = Text.of "web" then webScript
  else if type = Text.of "api" then apiScript
  else otherScript

end Templates

end Acceptance
